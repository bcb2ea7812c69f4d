import TftpOS.Python.Value

/-!
# TTL caches

`TTLCacheWrapper` and the decorator `ttl_cache` of `tftpos/cache.py`. A cached value may be
`None`, so the entries hold options and a `get` that finds `None` reads like a miss.

Calls that read the clock take their readings as arguments.
-/

namespace TftpOS

open Lib

/-- `CacheStats`. -/
structure CacheStats where
  hits : ℕ := 0
  misses : ℕ := 0
  evictions : ℕ := 0

/-- `TTLCacheWrapper`. -/
structure TTLCache (κ ν : Type) where
  maxsize : ℕ
  ttl : ℚ
  /-- The entries with the times they were stored at. -/
  entries : Dict κ (ℚ × Option ν) := ∅
  stats : CacheStats := {}

/-- The clock readings of a call of a cached function: in `get`, in the second look at the
entry and in `put`. -/
structure CacheClock where
  onGet : ℚ
  onCheck : ℚ
  onPut : ℚ

namespace TTLCache

variable {κ ν : Type} [DecidableEq κ]

/-- `TTLCacheWrapper.get`. -/
def get (c : TTLCache κ ν) (now : ℚ) (key : κ) : Option ν × TTLCache κ ν :=
  match c.entries.get? key with
  | none => (none, { c with stats := { c.stats with misses := c.stats.misses + 1 } })
  | some (timestamp, value) =>
    if now - timestamp > c.ttl then
      (none, { c with
        entries := c.entries.del key
        stats := { c.stats with
          evictions := c.stats.evictions + 1
          misses := c.stats.misses + 1 } })
    else (value, { c with stats := { c.stats with hits := c.stats.hits + 1 } })

/-- The first of the keys with the oldest timestamp. -/
def oldestKey : List (κ × ℚ × Option ν) → Option (κ × ℚ)
  | [] => none
  | (key, timestamp, _) :: es =>
    match oldestKey es with
    | some (key', timestamp') =>
      if timestamp ≤ timestamp' then some (key, timestamp) else some (key', timestamp')
    | none => some (key, timestamp)

/-- `TTLCacheWrapper.put`. -/
def put (c : TTLCache κ ν) (now : ℚ) (key : κ) (value : Option ν) :
    Except PyExc Unit × TTLCache κ ν :=
  if c.entries.size ≥ c.maxsize ∧ !c.entries.contains key then
    match oldestKey c.entries.entries with
    | none => (.error ⟨.valueError, "min() iterable argument is empty"⟩, c)
    | some (oldest, _) =>
      (.ok (), { c with
        entries := (c.entries.del oldest).set key (now, value)
        stats := { c.stats with evictions := c.stats.evictions + 1 } })
  else (.ok (), { c with entries := c.entries.set key (now, value) })

/-- `TTLCacheWrapper.invalidate`. -/
def invalidate (c : TTLCache κ ν) (key : κ) : Bool × TTLCache κ ν :=
  if c.entries.contains key then
    (true, { c with
      entries := c.entries.del key
      stats := { c.stats with evictions := c.stats.evictions + 1 } })
  else (false, c)

/-- `TTLCacheWrapper.invalidate_matching`: how many entries were removed. -/
def invalidateMatching (c : TTLCache κ ν) (predicate : κ → Bool) : ℕ × TTLCache κ ν :=
  let removed := (c.entries.keys.filter predicate).length
  (removed, { c with
    entries := c.entries.filter fun e => !predicate e.1
    stats := { c.stats with evictions := c.stats.evictions + removed } })

/-- `TTLCacheWrapper.clear`. -/
def clear (c : TTLCache κ ν) : TTLCache κ ν := { c with entries := ∅ }

/-- The entry that the second look of a cached function finds. -/
def check (c : TTLCache κ ν) (now : ℚ) (key : κ) : Option (Option ν) :=
  match c.entries.get? key with
  | none => none
  | some (timestamp, value) => if now - timestamp ≤ c.ttl then some value else none

/-- A call of a function decorated with `ttl_cache`: what it returns, whether the function was
evaluated, and the cache afterwards. -/
def call (c : TTLCache κ ν) (clock : CacheClock) (f : κ → Except PyExc (Option ν)) (key : κ) :
    Except PyExc (Option ν) × Bool × TTLCache κ ν :=
  match c.get clock.onGet key with
  | (some value, c') => (.ok (some value), false, c')
  | (none, c') =>
    match c'.check clock.onCheck key with
    | some value => (.ok value, false, c')
    | none =>
      match f key with
      | .error e => (.error e, true, c')
      | .ok value =>
        match c'.put clock.onPut key value with
        | (.ok (), c'') => (.ok value, true, c'')
        | (.error e, c'') => (.error e, true, c'')

end TTLCache

end TftpOS
