import Mathlib.Data.Prod.Lex
import Mathlib.Order.Lex
import TftpOS.Lib.StableSort
import TftpOS.Models
import TftpOS.Python.Text

/-!
# Host matching

`HostMatcher` keeps the rules sorted by priority and answers a request with the first rule, by
tier and then by priority. `matchTier` is the fall-through cascade of `_match_tier`.

The contract is stated over `Criterion`: a rule is *decided* by the first criterion for which
rule and request both carry a value, it is eligible at that criterion's tier when the
criterion is satisfied, and at tier 7 when it has no criterion at all (`EligibleAt`). The two
stable sorts return the least eligible rule by tier, priority and position
(`matchRequest_eq_some_iff`).
-/

namespace TftpOS

open Lib

/-- `fnmatch.fnmatch` and the `ipaddress` module, as given predicates. -/
structure NetLib where
  /-- `fnmatch.fnmatch(name, pattern)`. -/
  fnmatch : String → String → Bool
  /-- `ipaddress.ip_network` objects. -/
  Network : Type
  /-- `ipaddress.ip_address` objects. -/
  Address : Type
  /-- `ip_network(cidr, strict=False)`; `none` is its `ValueError`. -/
  ipNetwork : String → Option Network
  /-- `ip_address(ip)`; `none` is its `ValueError`. -/
  ipAddress : String → Option Address
  /-- `address in network`. -/
  contains : Network → Address → Bool

/-- `mac.lower().replace("-", ":")`. -/
def normMac (py : StrLib) (mac : String) : String := replaceChar '-' ':' (py.lower mac)

/-- `HostMatcher._subnet_match`. -/
def subnetMatch (net : NetLib) (clientIp cidr : String) : Bool :=
  match net.ipNetwork cidr, net.ipAddress clientIp with
  | some network, some address => net.contains network address
  | _, _ => false

/-- One criterion of the cascade: when rule and request both carry a value, the criterion alone
decides, for its tier or against the rule; otherwise the next criterion is asked. -/
def tierStep {α β : Type} (tier : ℕ) (ruleValue : Option α) (requestValue : Option β)
    (ok : α → β → Bool) (next : Option ℕ) : Option ℕ :=
  match ruleValue, requestValue with
  | some x, some y => if ok x y then some tier else none
  | _, _ => next

/-- `HostMatcher._match_tier`; `mac` is already normalised. -/
def matchTier (py : StrLib) (net : NetLib) (rule : HostRule)
    (mac hostname subnet serial : Option String) (groups : Option (List String))
    (arch : Option String) : Option ℕ :=
  tierStep 0 (filled rule.mac) (filled mac)
    (fun ruleMac mac => normMac py ruleMac = mac) <|
  tierStep 1 (filled rule.macPrefix) (filled mac)
    (fun rulePre mac => startsWith mac (normMac py rulePre)) <|
  tierStep 2 (filled rule.hostnamePattern) (filled hostname)
    (fun pattern hostname => net.fnmatch (py.lower hostname) (py.lower pattern)) <|
  tierStep 3 (filled rule.subnet) (filled subnet)
    (fun cidr subnet => subnetMatch net subnet cidr) <|
  tierStep 4 (filled rule.serial) (filled serial)
    (fun ruleSerial serial => ruleSerial = serial) <|
  tierStep 5 (filled rule.group) (filledList groups)
    (fun group groups => group ∈ groups) <|
  tierStep 6 (filled rule.arch) (filled arch)
    (fun ruleArch arch => py.lower ruleArch = py.lower arch) <|
  let hasCriteria := [rule.mac, rule.macPrefix, rule.hostnamePattern, rule.subnet, rule.serial,
    rule.group, rule.arch].any fun c => (filled c).isSome
  if hasCriteria then none else some 7

/-- `HostMatcher`: the rules, sorted by priority. -/
structure HostMatcher where
  rules : List HostRule

namespace HostMatcher

/-- `HostMatcher.__init__`. -/
def init (rules : List HostRule) : HostMatcher := ⟨sortOn HostRule.priority rules⟩

/-- The loop of `HostMatcher.match`: the rules that match, each with its tier and priority. -/
def candidates (py : StrLib) (net : NetLib) (m : HostMatcher) (req : Request) :
    List (ℕ × ℤ × HostRule) :=
  let macNorm := (filled req.mac).map (normMac py)
  m.rules.filterMap fun rule =>
    (matchTier py net rule macNorm req.hostname req.subnet req.serial req.groups req.arch).map
      fun tier => (tier, rule.priority, rule)

/-- `HostMatcher.match`. -/
def matchRequest (py : StrLib) (net : NetLib) (m : HostMatcher) (req : Request) :
    Option HostRule :=
  (sortOn (fun c => toLex (c.1, c.2.1)) (m.candidates py net req)).head?.map fun c => c.2.2

end HostMatcher

/-! ### The contract -/

/-- When both values are present, whether they pass a test. -/
def both {α β : Type} (a : Option α) (b : Option β) (ok : α → β → Bool) : Option Bool := do
  let x ← a
  let y ← b
  return ok x y

/-- The match criteria, in the order of specificity. -/
inductive Criterion where
  | mac
  | macPrefix
  | hostnamePattern
  | subnet
  | serial
  | group
  | arch
  deriving DecidableEq

namespace Criterion

/-- The tier a criterion decides. -/
def tier : Criterion → ℕ
  | .mac => 0
  | .macPrefix => 1
  | .hostnamePattern => 2
  | .subnet => 3
  | .serial => 4
  | .group => 5
  | .arch => 6

/-- The value a rule gives for a criterion, when it is non-empty. -/
def ofRule (rule : HostRule) : Criterion → Option String
  | .mac => filled rule.mac
  | .macPrefix => filled rule.macPrefix
  | .hostnamePattern => filled rule.hostnamePattern
  | .subnet => filled rule.subnet
  | .serial => filled rule.serial
  | .group => filled rule.group
  | .arch => filled rule.arch

/-- Rule and request both carry a non-empty value for the criterion, and whether it then is
satisfied; `none` when one of them does not carry it. -/
def test (py : StrLib) (net : NetLib) (rule : HostRule) (req : Request) :
    Criterion → Option Bool
  | .mac => both (filled rule.mac) (filled req.mac) fun r m => normMac py r = normMac py m
  | .macPrefix => both (filled rule.macPrefix) (filled req.mac) fun r m =>
      startsWith (normMac py m) (normMac py r)
  | .hostnamePattern => both (filled rule.hostnamePattern) (filled req.hostname) fun r h =>
      net.fnmatch (py.lower h) (py.lower r)
  | .subnet => both (filled rule.subnet) (filled req.subnet) fun r s => subnetMatch net s r
  | .serial => both (filled rule.serial) (filled req.serial) fun r s => r = s
  | .group => both (filled rule.group) (filledList req.groups) fun r gs => r ∈ gs
  | .arch => both (filled rule.arch) (filled req.arch) fun r a => py.lower r = py.lower a

/-- Rule and request both carry a non-empty value for the criterion. -/
def Carried (py : StrLib) (net : NetLib) (rule : HostRule) (req : Request) (c : Criterion) :
    Prop := c.test py net rule req ≠ none

/-- Both carry it, and the criterion is satisfied. -/
def Satisfied (py : StrLib) (net : NetLib) (rule : HostRule) (req : Request) (c : Criterion) :
    Prop := c.test py net rule req = some true

end Criterion

/-- The rule may answer the request at tier `t`: the first criterion both carry has tier `t`
and is satisfied, or the rule has no criterion and `t` is the catch-all tier. -/
def EligibleAt (py : StrLib) (net : NetLib) (rule : HostRule) (req : Request) (t : ℕ) : Prop :=
  (∃ c : Criterion, c.tier = t ∧ c.Satisfied py net rule req ∧
      ∀ c' : Criterion, c'.tier < c.tier → ¬ c'.Carried py net rule req) ∨
    (t = 7 ∧ ∀ c : Criterion, c.ofRule rule = none)

/-! ### The cascade decides by the first carried criterion -/

section

variable {py : StrLib} {net : NetLib}

private theorem tierStep_eq {α β : Type} {tier : ℕ} {a : Option α} {b : Option β}
    {ok : α → β → Bool} {next : Option ℕ} :
    tierStep tier a b ok next =
      match both a b ok with
      | some answer => if answer then some tier else none
      | none => next := by
  rcases a with _ | x
  · rfl
  · rcases b with _ | y <;> rfl

private theorem both_map_right {α β γ : Type} {a : Option α} {b : Option β} {f : β → γ}
    {ok : α → γ → Bool} : both a (b.map f) ok = both a b fun x y => ok x (f y) := by
  cases a <;> cases b <;> rfl

/-- Normalising a non-empty MAC leaves it non-empty. -/
theorem filled_map_normMac (mac : Option String) :
    filled ((filled mac).map (normMac py)) = (filled mac).map (normMac py) := by
  rcases h : filled mac with _ | m
  · rfl
  · have hm : m ≠ "" := (filled_eq_some_iff.mp h).2
    have hn : normMac py m ≠ "" := by
      rw [normMac, Ne, replaceChar_eq_empty, py.lower_eq_empty]
      exact hm
    simp [filled, hn]

private theorem ofRule_eq_none_test {rule : HostRule} {req : Request} {c : Criterion}
    (h : c.ofRule rule = none) : c.test py net rule req = none := by
  cases c <;> simp only [Criterion.ofRule] at h <;> simp [Criterion.test, both, h]

/-- The flag `has_criteria` says whether the rule has a criterion. -/
private theorem any_filled_eq_false_iff {rule : HostRule} :
    ([rule.mac, rule.macPrefix, rule.hostnamePattern, rule.subnet, rule.serial, rule.group,
      rule.arch].any fun c => (filled c).isSome) = false ↔
      ∀ c : Criterion, c.ofRule rule = none := by
  simp only [List.any_eq_false, List.mem_cons, List.not_mem_nil, or_false, forall_eq_or_imp,
    forall_eq, Option.not_isSome_iff_eq_none]
  constructor
  · rintro ⟨h0, h1, h2, h3, h4, h5, h6⟩ c
    cases c <;> assumption
  · intro h
    exact ⟨h .mac, h .macPrefix, h .hostnamePattern, h .subnet, h .serial, h .group, h .arch⟩

/-- The first of the criteria that rule and request both carry decides, and `last` where they
carry none of them. -/
private def firstCarried (py : StrLib) (net : NetLib) (rule : HostRule) (req : Request)
    (last : Option ℕ) : List Criterion → Option ℕ
  | [] => last
  | c :: cs =>
    match c.test py net rule req with
    | some answer => if answer then some c.tier else none
    | none => firstCarried py net rule req last cs

/-- The cascade is the walk over all criteria, with the catch-all test at its end. -/
private theorem matchTier_eq_firstCarried {rule : HostRule} {req : Request} :
    matchTier py net rule ((filled req.mac).map (normMac py)) req.hostname req.subnet req.serial
        req.groups req.arch =
      firstCarried py net rule req
        (if [rule.mac, rule.macPrefix, rule.hostnamePattern, rule.subnet, rule.serial, rule.group,
          rule.arch].any fun c => (filled c).isSome then none else some 7)
        [.mac, .macPrefix, .hostnamePattern, .subnet, .serial, .group, .arch] := by
  rw [matchTier, filled_map_normMac]
  simp only [tierStep_eq, both_map_right]
  rfl

private theorem firstCarried_eq_some_iff {rule : HostRule} {req : Request} {last : Option ℕ}
    {t : ℕ} {cs : List Criterion} (hcs : cs.Pairwise fun c c' => c.tier < c'.tier) :
    firstCarried py net rule req last cs = some t ↔
      (∃ c ∈ cs, c.tier = t ∧ c.Satisfied py net rule req ∧
        ∀ c' ∈ cs, c'.tier < c.tier → ¬ c'.Carried py net rule req) ∨
      (∀ c ∈ cs, ¬ c.Carried py net rule req) ∧ last = some t := by
  induction cs with
  | nil => simp [firstCarried]
  | cons c cs ih =>
    rw [List.pairwise_cons] at hcs
    cases htest : c.test py net rule req with
    | none =>
      -- a criterion that is not carried changes neither side
      have hcarried : ¬ c.Carried py net rule req := not_not.mpr htest
      have hsatisfied : ¬ c.Satisfied py net rule req := by
        rw [Criterion.Satisfied, htest]
        exact nofun
      rw [firstCarried, htest]
      simp only [ih hcs.2, List.exists_mem_cons_iff, List.forall_mem_cons, hcarried, hsatisfied,
        not_false_eq_true, implies_true, true_and, false_and, and_false, false_or]
    | some answer =>
      have hcarried : c.Carried py net rule req := by
        rw [Criterion.Carried, htest]
        exact Option.some_ne_none _
      have hfirst : ∀ c' ∈ c :: cs, ¬ c'.tier < c.tier := by
        rw [List.forall_mem_cons]
        exact ⟨lt_irrefl _, fun c' hc' => (hcs.1 c' hc').le.not_gt⟩
      rw [firstCarried, htest]
      constructor
      · intro h
        obtain ⟨hanswer, rfl⟩ : answer = true ∧ c.tier = t := by simpa using h
        refine .inl ⟨c, List.mem_cons_self, rfl, htest.trans (congrArg some hanswer), ?_⟩
        exact fun c' hc' hlt => absurd hlt (hfirst c' hc')
      · rintro (⟨c', hc', rfl, hsatisfied, hmin⟩ | ⟨hnone, -⟩)
        · rcases List.mem_cons.mp hc' with rfl | hc'
          · obtain rfl : answer = true := Option.some.inj (htest.symm.trans hsatisfied)
            rfl
          · exact absurd hcarried (hmin c List.mem_cons_self (hcs.1 c' hc'))
        · exact absurd hcarried (hnone c List.mem_cons_self)

/-- `_match_tier` answers `t` exactly when the rule is eligible at tier `t`. -/
theorem matchTier_eq_some_iff {rule : HostRule} {req : Request} {t : ℕ} :
    matchTier py net rule ((filled req.mac).map (normMac py)) req.hostname req.subnet req.serial
      req.groups req.arch = some t ↔ EligibleAt py net rule req t := by
  have hall : ∀ c : Criterion,
      c ∈ [.mac, .macPrefix, .hostnamePattern, .subnet, .serial, .group, Criterion.arch] := by
    intro c
    cases c <;> decide
  rw [matchTier_eq_firstCarried, firstCarried_eq_some_iff (by decide), EligibleAt]
  refine or_congr (by simp only [hall, true_and, true_implies]) ?_
  constructor
  · rintro ⟨-, hlast⟩
    split_ifs at hlast with hcriteria
    rw [Bool.not_eq_true, any_filled_eq_false_iff] at hcriteria
    exact ⟨(Option.some.inj hlast).symm, hcriteria⟩
  · rintro ⟨rfl, hnone⟩
    rw [any_filled_eq_false_iff.mpr hnone]
    exact ⟨fun c _ => not_not.mpr (ofRule_eq_none_test (hnone c)), rfl⟩

/-! ### The two stable sorts pick the least eligible rule -/

/-- The rule at position `i` is eligible, at tier `t`, and no eligible rule is smaller by
tier, priority and position. -/
structure IsBest (py : StrLib) (net : NetLib) (rules : List HostRule) (req : Request) (i t : ℕ)
    (r : HostRule) : Prop where
  getElem? : rules[i]? = some r
  eligible : EligibleAt py net r req t
  le : ∀ j r' t', rules[j]? = some r' → EligibleAt py net r' req t' →
    toLex (t, toLex (r.priority, i)) ≤ toLex (t', toLex (r'.priority, j))

/-- At most one rule is best. -/
theorem IsBest.unique {rules : List HostRule} {req : Request} {i i' t t' : ℕ} {r r' : HostRule}
    (h : IsBest py net rules req i t r) (h' : IsBest py net rules req i' t' r') : r = r' := by
  have heq := le_antisymm (h.le i' r' t' h'.getElem? h'.eligible)
    (h'.le i r t h.getElem? h.eligible)
  have hi : i = i' := congrArg (fun x => (ofLex (ofLex x).2).2) heq
  exact Option.some.inj (h.getElem?.symm.trans (hi ▸ h'.getElem?))

namespace HostMatcher

variable {α : Type}

/-- The element of a list whose rule `f` answers, given priority and tier of the rules. -/
private def winner (p : α → ℤ) (tier : α → Option ℕ) (l : List α) : Option α :=
  (sortOn (fun c => toLex (c.1, c.2.1)) ((sortOn p l).filterMap fun x =>
    (tier x).map fun t => (t, p x, x))).head?.map fun c => c.2.2

/-- Which element wins depends on the priorities and the tiers of the rules alone. -/
private theorem matchRequest_map {f : α → HostRule} {p : α → ℤ} {tier : α → Option ℕ}
    {req : Request} (l : List α) (hp : ∀ x, (f x).priority = p x)
    (htier : ∀ x, matchTier py net (f x) ((filled req.mac).map (normMac py)) req.hostname req.subnet
      req.serial req.groups req.arch = tier x) :
    (init (l.map f)).matchRequest py net req = (winner p tier l).map f := by
  have hrules : sortOn HostRule.priority (l.map f) = (sortOn p l).map f := by
    rw [sortOn_map]
    simp only [hp]
  have hcand : (init (l.map f)).candidates py net req =
      ((sortOn p l).filterMap fun x => (tier x).map fun t => (t, p x, x)).map
        fun c => (c.1, c.2.1, f c.2.2) := by
    rw [candidates, init, hrules, List.filterMap_map, List.map_filterMap]
    congr 1
    funext x
    simp [Function.comp_def, hp, htier]
  -- the sort key does not look at the element
  rw [matchRequest, hcand, sortOn_map, List.head?_map, Option.map_map, winner, Option.map_map]
  rfl

/-- If `f` and `g` turn each element into rules of one priority and one tier, the same element
wins with both. -/
theorem matchRequest_map_congr {f g : α → HostRule} {req : Request} (l : List α)
    (hp : ∀ x, (g x).priority = (f x).priority)
    (htier : ∀ x, matchTier py net (g x) ((filled req.mac).map (normMac py)) req.hostname
        req.subnet req.serial req.groups req.arch =
      matchTier py net (f x) ((filled req.mac).map (normMac py)) req.hostname req.subnet
        req.serial req.groups req.arch) :
    ∃ won : Option α, (init (l.map f)).matchRequest py net req = won.map f ∧
      (init (l.map g)).matchRequest py net req = won.map g :=
  ⟨_, matchRequest_map l (fun _ => rfl) (fun _ => rfl), matchRequest_map l hp htier⟩

/-- The candidates of a request, with the position of each rule in the list given. -/
private def indexed (py : StrLib) (net : NetLib) (rules : List HostRule) (req : Request) :
    List (ℕ × ℤ × HostRule × ℕ) :=
  (sortOn (fun x => x.1.priority) rules.zipIdx).filterMap fun x =>
    (matchTier py net x.1 ((filled req.mac).map (normMac py)) req.hostname req.subnet req.serial
      req.groups req.arch).map fun tier => (tier, x.1.priority, x)

variable {rules : List HostRule} {req : Request}

private theorem matchRequest_eq_indexed :
    (init rules).matchRequest py net req =
      (sortOn (fun c => toLex (c.1, c.2.1)) (indexed py net rules req)).head?.map
        fun c => c.2.2.1 := by
  have hmap : (init (rules.zipIdx.map Prod.fst)).matchRequest py net req = _ :=
    matchRequest_map rules.zipIdx (fun _ => rfl) fun _ => rfl
  rw [List.zipIdx_map_fst, winner, Option.map_map] at hmap
  exact hmap

private theorem mem_indexed {c : ℕ × ℤ × HostRule × ℕ} :
    c ∈ indexed py net rules req ↔
      rules[c.2.2.2]? = some c.2.2.1 ∧ EligibleAt py net c.2.2.1 req c.1 ∧
        c.2.1 = c.2.2.1.priority := by
  obtain ⟨t, p, r, i⟩ := c
  simp only [indexed, List.mem_filterMap, mem_sortOn, Prod.exists, List.mk_mem_zipIdx_iff_getElem?,
    Option.map_eq_some_iff, matchTier_eq_some_iff, Prod.mk.injEq]
  constructor
  · rintro ⟨r', i', hi, t', ht, rfl, rfl, rfl, rfl⟩
    exact ⟨hi, ht, rfl⟩
  · rintro ⟨hi, ht, rfl⟩
    exact ⟨r, i, hi, t, ht, rfl, rfl, rfl, rfl⟩

/-- The candidates come out of the first sort by priority, then position. -/
private theorem pairwise_indexed : (indexed py net rules req).Pairwise
    (KeyThen (fun c => c.2.1) fun a b => a.2.2.2 < b.2.2.2) := by
  have hidx : rules.zipIdx.Pairwise fun a b => a.2 < b.2 := by
    rw [← List.pairwise_map (f := Prod.snd) (R := (· < ·)), List.zipIdx_map_snd]
    exact List.pairwise_lt_range'
  have hsorted : (sortOn (fun x : HostRule × ℕ => x.1.priority) rules.zipIdx).Pairwise
      (KeyThen (fun x => x.1.priority) fun a b => a.2 < b.2) := pairwise_sortOn hidx
  refine hsorted.filterMap _ ?_
  intro x y hxy a ha b hb
  obtain ⟨t, -, rfl⟩ := Option.map_eq_some_iff.mp ha
  obtain ⟨t', -, rfl⟩ := Option.map_eq_some_iff.mp hb
  exact hxy

/-- The head of the second sort is the best rule. -/
private theorem isBest_of_head? {c : ℕ × ℤ × HostRule × ℕ}
    (h : (sortOn (fun c => toLex (c.1, c.2.1)) (indexed py net rules req)).head? = some c) :
    IsBest py net rules req c.2.2.2 c.1 c.2.2.1 := by
  have hc := mem_indexed.mp (mem_sortOn.mp (List.mem_of_head? h))
  refine ⟨hc.1, hc.2.1, fun j r' t' hj ht' => ?_⟩
  have hmem : (t', r'.priority, r', j) ∈
      sortOn (fun c => toLex (c.1, c.2.1)) (indexed py net rules req) :=
    mem_sortOn.mpr (mem_indexed.mpr ⟨hj, ht', rfl⟩)
  rcases rel_head?_of_pairwise (pairwise_sortOn pairwise_indexed) h hmem with rfl | hlt
  · exact le_rfl
  · rw [← hc.2.2, Prod.Lex.toLex_le_toLex]
    rcases hlt with hlt | ⟨heq, hlt⟩
    · rcases Prod.Lex.toLex_lt_toLex.mp hlt with hlt | ⟨ht, hlt⟩
      · exact .inl hlt
      · exact .inr ⟨ht, Prod.Lex.toLex_le_toLex.mpr (.inl hlt)⟩
    · -- equal tier and priority: the second sort kept the order the first one left
      obtain ⟨ht, hp⟩ := Prod.mk.inj (toLex.injective heq)
      rcases hlt with hlt | ⟨-, hlt⟩
      · exact absurd hlt (by simpa using hp.ge)
      · exact .inr ⟨ht, Prod.Lex.toLex_le_toLex.mpr (.inr ⟨hp, hlt.le⟩)⟩

theorem matchRequest_eq_none_iff :
    (init rules).matchRequest py net req = none ↔
      ∀ r ∈ rules, ∀ t, ¬ EligibleAt py net r req t := by
  rw [matchRequest_eq_indexed, Option.map_eq_none_iff, List.head?_eq_none_iff,
    List.eq_nil_iff_forall_not_mem]
  constructor
  · intro h r hr t ht
    obtain ⟨i, hi⟩ := List.mem_iff_getElem?.mp hr
    exact h (t, r.priority, r, i) (mem_sortOn.mpr (mem_indexed.mpr ⟨hi, ht, rfl⟩))
  · intro h c hc
    obtain ⟨hi, ht, -⟩ := mem_indexed.mp (mem_sortOn.mp hc)
    exact h _ (List.mem_of_getElem? hi) _ ht

theorem matchRequest_eq_some_iff {r : HostRule} :
    (init rules).matchRequest py net req = some r ↔
      ∃ i t, IsBest py net rules req i t r := by
  have sound : ∀ {r}, (init rules).matchRequest py net req = some r →
      ∃ i t, IsBest py net rules req i t r := by
    intro r h
    rw [matchRequest_eq_indexed] at h
    obtain ⟨c, hc, rfl⟩ := Option.map_eq_some_iff.mp h
    exact ⟨_, _, isBest_of_head? hc⟩
  refine ⟨sound, fun ⟨i, t, h⟩ => ?_⟩
  have hne : (init rules).matchRequest py net req ≠ none := fun hnone =>
    matchRequest_eq_none_iff.mp hnone r (List.mem_of_getElem? h.getElem?) t h.eligible
  obtain ⟨r', hr'⟩ := Option.ne_none_iff_exists'.mp hne
  obtain ⟨i', t', h'⟩ := sound hr'
  rw [hr', h.unique h']

/-- An eligible rule that pins a MAC pins the MAC of the request. -/
theorem normMac_eq_of_eligibleAt {r : HostRule} {t : ℕ} {m p : String}
    (h : EligibleAt py net r req t) (hm : filled req.mac = some m) (hp : filled r.mac = some p) :
    normMac py p = normMac py m := by
  rcases h with ⟨c, -, hsat, hmin⟩ | ⟨-, hnone⟩
  · have htest : Criterion.mac.test py net r req = some (decide (normMac py p = normMac py m)) := by
      simp [Criterion.test, both, hm, hp]
    by_cases hc : c = .mac
    · subst hc
      rw [Criterion.Satisfied, htest] at hsat
      simpa using hsat
    · have hlt : Criterion.mac.tier < c.tier := by
        cases c <;> simp_all [Criterion.tier]
      refine absurd ?_ (hmin .mac hlt)
      rw [Criterion.Carried, htest]
      exact Option.some_ne_none _
  · have hnomac : filled r.mac = none := hnone .mac
    simp [hnomac] at hp

/-- **Host matching.** The answer is `None` exactly when no rule is eligible; otherwise it is
the eligible rule that is least by tier, priority and position in the list given; and a rule
pinned to one MAC never answers a request that carries another. -/
theorem matchRequest_least (py : StrLib) (net : NetLib) (rules : List HostRule) (req : Request) :
    ((init rules).matchRequest py net req = none ↔
        ∀ r ∈ rules, ∀ t, ¬ EligibleAt py net r req t) ∧
      (∀ r, (init rules).matchRequest py net req = some r ↔
        ∃ i t, IsBest py net rules req i t r) ∧
      ∀ r m p, (init rules).matchRequest py net req = some r → filled req.mac = some m →
        filled r.mac = some p → normMac py p = normMac py m := by
  refine ⟨matchRequest_eq_none_iff, fun r => matchRequest_eq_some_iff, fun r m p h hm hp => ?_⟩
  obtain ⟨i, t, hbest⟩ := matchRequest_eq_some_iff.mp h
  exact normMac_eq_of_eligibleAt hbest.eligible hm hp

end HostMatcher

end

end TftpOS
