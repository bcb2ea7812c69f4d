import Mathlib.Algebra.Order.Ring.Rat
import TftpOS.Python.Text
import TftpOS.Python.Value

/-!
# Webhooks

Signatures and deliveries of `tftpos/webhooks.py`. A delivery is a loop of attempts over the
outcomes of the HTTP post, each a status code or the text of an exception; `Action` records what
the loop does. The digest of HMAC-SHA256 is an abstract function on bytes.

The manager sends its signature behind the text `sha256=`, and `verify_signature` compares it with
the bare hexadecimal digest, so it accepts the header of no delivery (`header_never_verifies`).
-/

namespace TftpOS

open Lib

/-- What the webhooks take from the standard library. The leaves `ι` of a payload are the values
that `default=str` turns into text. -/
structure WebhookLib (ι : Type) where
  /-- `json.dumps(payload, default=str).encode("utf-8")`. -/
  encode : Dict String (Value ι) → Bytes
  /-- `hmac.new(key, message, hashlib.sha256).digest()`. -/
  digest : (key message : Bytes) → Bytes

/-! ### Signatures -/

/-- The two hexadecimal digits of a byte. -/
def hexDigits (b : UInt8) : List Char :=
  [Nat.digitChar (b.toNat / 16), Nat.digitChar (b.toNat % 16)]

/-- `hexdigest()` of a digest. -/
def hexdigest (digest : Bytes) : String := String.ofList (digest.flatMap hexDigits)

/-- `hmac.compare_digest` on strings. -/
def compareDigest (a b : String) : Except PyExc Bool :=
  if IsAscii a ∧ IsAscii b then .ok (a == b)
  else .error ⟨.typeError, "comparing strings with non-ASCII characters is not supported"⟩

variable {ι : Type}

/-- `compute_signature`. -/
def computeSignature (lib : WebhookLib ι) (payloadBytes : Bytes) (secret : String) : String :=
  hexdigest (lib.digest secret.toUTF8.toList payloadBytes)

/-- `verify_signature`. -/
def verifySignature (lib : WebhookLib ι) (payloadBytes : Bytes) (secret signature : String) :
    Except PyExc Bool :=
  compareDigest (computeSignature lib payloadBytes secret) signature

theorem isAscii_hexdigest (digest : Bytes) : IsAscii (hexdigest digest) := by
  have hdigit : ∀ n < 16, (Nat.digitChar n).toNat < 128 := by decide
  intro c hc
  rw [hexdigest, String.toList_ofList] at hc
  obtain ⟨b, -, hc⟩ := List.mem_flatMap.mp hc
  have hb : b.toNat < 256 := b.toNat_lt
  rcases List.mem_pair.mp hc with rfl | rfl
  · exact hdigit _ (by omega)
  · exact hdigit _ (by omega)

/-- A digest is accepted as it was computed. -/
theorem verifySignature_computeSignature (lib : WebhookLib ι) (body : Bytes) (secret : String) :
    verifySignature lib body secret (computeSignature lib body secret) = .ok true := by
  have hascii := isAscii_hexdigest (lib.digest secret.toUTF8.toList body)
  rw [verifySignature, compareDigest, computeSignature, if_pos ⟨hascii, hascii⟩, beq_self_eq_true]

/-- A digest with a text before it is refused. -/
theorem verifySignature_append {text : String} (htext : IsAscii text) (hne : text ≠ "")
    (lib : WebhookLib ι) (body : Bytes) (secret : String) :
    verifySignature lib body secret (text ++ computeSignature lib body secret) = .ok false := by
  have hascii := isAscii_hexdigest (lib.digest secret.toUTF8.toList body)
  have happend : IsAscii (text ++ hexdigest (lib.digest secret.toUTF8.toList body)) := by
    intro c hc
    rw [String.toList_append, List.mem_append] at hc
    exact hc.elim (htext c) (hascii c)
  rw [verifySignature, compareDigest, computeSignature, if_pos ⟨hascii, happend⟩]
  congr 1
  rw [beq_eq_false_iff_ne]
  intro heq
  have hlength := congrArg String.length heq
  rw [String.length_append] at hlength
  exact hne (String.length_eq_zero_iff.mp (by omega))

/-! ### Deliveries -/

/-- `WebhookConfig`. -/
structure WebhookConfig where
  url : String
  events : List String := []
  secret : String := ""
  retryCount : ℤ := 3
  timeout : ℚ := 10

/-- `WebhookDelivery`. -/
structure WebhookDelivery (ι : Type) where
  deliveryId : String
  webhookUrl : String
  event : String
  payload : Dict String (Value ι)
  success : Bool := false
  attempts : ℕ := 0
  statusCode : Option ℤ := none
  error : Option String := none
  deliveredAt : Option ℚ := none

/-- The arguments of `_http_post`. -/
structure Post where
  url : String
  body : Bytes
  headers : Dict String String
  timeout : ℚ

/-- What a delivery does, in order. -/
inductive Action (ι : Type) where
  | post (post : Post)
  | sleep (seconds : ℚ)
  | notify (delivery : WebhookDelivery ι)

/-- What a delivery meets: its id, by attempt what the post returns or the text of the exception it
raises, and the time at which an attempt succeeds. -/
structure Weather where
  deliveryId : String
  outcome : ℕ → Except String ℤ
  clock : ℕ → ℚ

/-- `WebhookManager`. -/
structure WebhookManager (ι : Type) where
  webhooks : List WebhookConfig
  /-- Whether an `on_delivery` callback is set. -/
  onDelivery : Bool
  deliveries : List (WebhookDelivery ι)

namespace WebhookManager

/-- `_max_deliveries`. -/
def maxDeliveries : ℕ := 500

/-- The headers of a delivery. -/
def headers (lib : WebhookLib ι) (wh : WebhookConfig) (event deliveryId : String) (body : Bytes) :
    Dict String String :=
  let headers := Dict.ofEntries [("Content-Type", "application/json"), ("X-TftpOS-Event", event),
    ("X-TftpOS-Delivery", deliveryId)]
  if wh.secret ≠ "" then
    headers.set "X-TftpOS-Signature" ("sha256=" ++ computeSignature lib body wh.secret)
  else headers

/-- The exponential backoff after an attempt, except the last one. -/
def backoff (maxAttempts attempt : ℕ) : List (Action ι) :=
  if attempt + 1 < maxAttempts then [.sleep (2 ^ attempt)] else []

/-- The loop over the attempts: the delivery it leaves, and what it does. -/
def attemptAll (weather : Weather) (post : Post) (maxAttempts : ℕ) :
    List ℕ → WebhookDelivery ι → WebhookDelivery ι × List (Action ι)
  | [], delivery => (delivery, [])
  | attempt :: rest, delivery =>
    let delivery := { delivery with attempts := attempt + 1 }
    match weather.outcome attempt with
    | .ok status =>
      let delivery := { delivery with statusCode := some status }
      if 200 ≤ status ∧ status < 300 then
        ({ delivery with success := true, deliveredAt := some (weather.clock attempt) },
          [.post post])
      else
        let delivery := { delivery with error := some ("HTTP " ++ toString status) }
        let (last, actions) := attemptAll weather post maxAttempts rest delivery
        (last, .post post :: backoff maxAttempts attempt ++ actions)
    | .error text =>
      let delivery := { delivery with error := some text }
      let (last, actions) := attemptAll weather post maxAttempts rest delivery
      (last, .post post :: backoff maxAttempts attempt ++ actions)

/-- Append to the log, which keeps the last deliveries. -/
def record (m : WebhookManager ι) (delivery : WebhookDelivery ι) : WebhookManager ι :=
  let deliveries := m.deliveries ++ [delivery]
  { m with deliveries := deliveries.drop (deliveries.length - maxDeliveries) }

/-- `_deliver`: the delivery it returns, what it does, and the manager afterwards. -/
def deliver (lib : WebhookLib ι) (weather : Weather) (m : WebhookManager ι) (wh : WebhookConfig)
    (event : String) (payload : Dict String (Value ι)) :
    WebhookDelivery ι × List (Action ι) × WebhookManager ι :=
  let deliveryPayload := payload.set "event" (.str event)
  let delivery : WebhookDelivery ι := {
    deliveryId := weather.deliveryId
    webhookUrl := wh.url
    event := event
    payload := deliveryPayload }
  let payloadBytes := lib.encode deliveryPayload
  let post : Post := {
    url := wh.url
    body := payloadBytes
    headers := headers lib wh event weather.deliveryId payloadBytes
    timeout := wh.timeout }
  let maxAttempts := (max 1 wh.retryCount).toNat
  let (delivery, actions) :=
    attemptAll weather post maxAttempts (List.range maxAttempts) delivery
  -- whether the callback raises changes nothing
  let notified := if m.onDelivery then [.notify delivery] else []
  (delivery, actions ++ notified, m.record delivery)

/-! ### The header of a delivery -/

variable {lib : WebhookLib ι} {weather : Weather} {post : Post} {maxAttempts : ℕ}

variable (weather post maxAttempts) in
/-- An attempt posts, and is the last or backs off before the others. -/
theorem attemptAll_cons (attempt : ℕ) (rest : List ℕ) (delivery : WebhookDelivery ι) :
    (attemptAll weather post maxAttempts (attempt :: rest) delivery).2 = [.post post] ∨
      ∃ delivery', attemptAll weather post maxAttempts (attempt :: rest) delivery =
        ((attemptAll weather post maxAttempts rest delivery').1,
          .post post :: backoff maxAttempts attempt ++
            (attemptAll weather post maxAttempts rest delivery').2) := by
  rw [attemptAll]
  rcases weather.outcome attempt with text | status
  · exact .inr ⟨_, rfl⟩
  · dsimp only
    split_ifs
    · exact .inl rfl
    · exact .inr ⟨_, rfl⟩

/-- Every attempt posts the same. -/
theorem eq_of_post_mem {post' : Post} {attempts : List ℕ} {delivery : WebhookDelivery ι}
    (h : .post post' ∈ (attemptAll weather post maxAttempts attempts delivery).2) :
    post' = post := by
  induction attempts generalizing delivery with
  | nil => cases h
  | cons attempt rest ih =>
    rcases attemptAll_cons weather post maxAttempts attempt rest delivery with
      heq | ⟨delivery', heq⟩
    · rw [heq] at h
      cases List.mem_singleton.mp h
      rfl
    · have hbackoff : (.post post' : Action ι) ∉ backoff maxAttempts attempt := by
        rw [backoff]
        split_ifs <;> simp
      rw [heq, List.cons_append, List.mem_cons, List.mem_append] at h
      rcases h with h | h | h
      · cases h
        rfl
      · exact absurd h hbackoff
      · exact ih h

/-- There is at least one attempt. -/
theorem post_mem_attemptAll (delivery : WebhookDelivery ι) (hmax : 0 < maxAttempts) :
    .post post ∈ (attemptAll weather post maxAttempts (List.range maxAttempts) delivery).2 := by
  obtain ⟨n, rfl⟩ := Nat.exists_eq_succ_of_ne_zero hmax.ne'
  rw [List.range_succ_eq_map]
  rcases attemptAll_cons weather post n.succ 0 ((List.range n).map Nat.succ) delivery with
    heq | ⟨delivery', heq⟩
  · rw [heq]
    exact List.mem_singleton_self _
  · rw [heq]
    exact List.mem_cons_self ..

/-- The receiver of a post accepts its signature header, read as the security guide reads it. -/
def HeaderVerifies (lib : WebhookLib ι) (secret : String) (post : Post) : Prop :=
  ∃ signature, post.headers.get? "X-TftpOS-Signature" = some signature ∧
    verifySignature lib post.body secret signature = .ok true

theorem exists_post_mem (lib : WebhookLib ι) (weather : Weather) (m : WebhookManager ι)
    (wh : WebhookConfig) (event : String) (payload : Dict String (Value ι)) :
    ∃ post, .post post ∈ (deliver lib weather m wh event payload).2.1 := by
  have hmax : 0 < (max 1 wh.retryCount).toNat := by omega
  exact ⟨_, List.mem_append_left _ (post_mem_attemptAll _ hmax)⟩

theorem get?_headers (lib : WebhookLib ι) {wh : WebhookConfig} (hsecret : wh.secret ≠ "")
    (event deliveryId : String) (body : Bytes) :
    (headers lib wh event deliveryId body).get? "X-TftpOS-Signature" =
      some ("sha256=" ++ computeSignature lib body wh.secret) := by
  rw [headers, if_pos hsecret, Dict.get?_set_self]

/-- The posts of a delivery, with their signature headers. -/
theorem header_of_post_mem {m : WebhookManager ι} {wh : WebhookConfig} (hsecret : wh.secret ≠ "")
    {event : String} {payload : Dict String (Value ι)}
    (h : .post post ∈ (deliver lib weather m wh event payload).2.1) :
    post.headers.get? "X-TftpOS-Signature" =
      some ("sha256=" ++ computeSignature lib post.body wh.secret) := by
  rcases List.mem_append.mp h with h | h
  · rw [eq_of_post_mem h]
    exact get?_headers lib hsecret event _ _
  · split_ifs at h
    · cases List.mem_singleton.mp h
    · cases h

theorem not_headerVerifies {m : WebhookManager ι} {wh : WebhookConfig} (hsecret : wh.secret ≠ "")
    {event : String} {payload : Dict String (Value ι)}
    (h : .post post ∈ (deliver lib weather m wh event payload).2.1) :
    ¬ HeaderVerifies lib wh.secret post := by
  rintro ⟨signature, hsignature, hverifies⟩
  rw [header_of_post_mem hsecret h] at hsignature
  obtain rfl := Option.some.inj hsignature
  rw [verifySignature_append (by decide) (by decide)] at hverifies
  cases hverifies

/-- The digest of one payload, under the secret `lab`. -/
def labDigest : Bytes :=
  [185, 219, 72, 116, 1, 89, 192, 247, 144, 224, 99, 181, 13, 0, 164, 201,
    80, 64, 74, 132, 223, 199, 235, 73, 146, 45, 69, 42, 142, 254, 29, 228]

/-- The library as it answers for the payload with the one MAC `aa:01`. -/
def labLib : WebhookLib Empty where
  encode _ := "\x7b\"mac\": \"aa:01\", \"event\": \"provision.started\"\x7d".toUTF8.toList
  digest _ _ := labDigest

/-- A receiver that follows the security guide refuses the post. -/
theorem receiver_refuses_header :
    ∃ post, .post post ∈ (deliver labLib ⟨"0123456789abcdef", fun _ => .ok 200, fun _ => 0⟩
        ⟨[], false, []⟩ { url := "https://lab", secret := "lab" } "provision.started"
        ((∅ : Dict String Json).set "mac" (.str "aa:01"))).2.1 ∧
      post.headers.get? "X-TftpOS-Signature" = some
        "sha256=b9db48740159c0f790e063b50d00a4c950404a84dfc7eb49922d452a8efe1de4" ∧
      ¬ HeaderVerifies labLib "lab" post := by
  obtain ⟨post, hpost⟩ := exists_post_mem labLib ⟨"0123456789abcdef", fun _ => .ok 200, fun _ => 0⟩
    ⟨[], false, []⟩ { url := "https://lab", secret := "lab" } "provision.started"
    ((∅ : Dict String Json).set "mac" (.str "aa:01"))
  have hheader := header_of_post_mem (by decide) hpost
  have hrefused := not_headerVerifies (by decide) hpost
  have hdigest : hexdigest labDigest =
      "b9db48740159c0f790e063b50d00a4c950404a84dfc7eb49922d452a8efe1de4" := by decide +kernel
  refine ⟨post, hpost, hheader.trans ?_, hrefused⟩
  rw [computeSignature, labLib, hdigest]
  rfl

/-- **Signature headers.** A delivery with a secret posts at least once, and the header of every
post is `sha256=` and a signature that verifies; the header itself never does. -/
theorem header_never_verifies (lib : WebhookLib ι) (weather : Weather) (m : WebhookManager ι)
    (wh : WebhookConfig) (event : String) (payload : Dict String (Value ι))
    (hsecret : wh.secret ≠ "") :
    (∃ post, .post post ∈ (deliver lib weather m wh event payload).2.1) ∧
      ∀ post, .post post ∈ (deliver lib weather m wh event payload).2.1 →
        ¬ HeaderVerifies lib wh.secret post ∧
        ∃ signature, post.headers.get? "X-TftpOS-Signature" = some ("sha256=" ++ signature) ∧
          verifySignature lib post.body wh.secret signature = .ok true := by
  constructor
  · exact exists_post_mem lib weather m wh event payload
  · intro post h
    exact ⟨not_headerVerifies hsecret h, _, header_of_post_mem hsecret h,
      verifySignature_computeSignature lib post.body wh.secret⟩

/-- The delivery of one payload. -/
theorem header_never_verifies_lab :
    ∃ post, .post post ∈ (deliver labLib ⟨"0123456789abcdef", fun _ => .ok 200, fun _ => 0⟩
        ⟨[], false, []⟩ { url := "https://lab", secret := "lab" } "provision.started"
        ((∅ : Dict String Json).set "mac" (.str "aa:01"))).2.1 ∧
      ¬ HeaderVerifies labLib "lab" post := by
  obtain ⟨⟨post, hpost⟩, hrefused⟩ := header_never_verifies labLib
    ⟨"0123456789abcdef", fun _ => .ok 200, fun _ => 0⟩ ⟨[], false, []⟩
    { url := "https://lab", secret := "lab" } "provision.started"
    ((∅ : Dict String Json).set "mac" (.str "aa:01")) (by decide)
  exact ⟨post, hpost, (hrefused post hpost).1⟩

end WebhookManager

end TftpOS
