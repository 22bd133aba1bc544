import YtdlBot.Framework.Texts

/-!
# Callback data

The data of a button is an action with its parts, joined under a version tag. The decoder also takes
the previous shape without the tag.
-/

namespace YtdlBot.Media.Callbacks

open Framework Texts

/-- `CallbackDataError` with its text. -/
structure CallbackDataError where
  text : String
deriving DecidableEq

def callbackVersion : String := "m2"

/-- A character of `_CALLBACK_PART`. -/
def isPartChar (c : Char) : Bool :=
  c.isAlphanum || c ∈ ['_', '.', ':', '*', '+', '/', '@', '=', '-']

/-- The whole value matches `_CALLBACK_PART`. -/
def isCallbackPart (value : String) : Bool := value ≠ "" && value.toList.all isPartChar

/-- `_validate_callback_parts` -/
def validateCallbackParts (action : String) (parts : List String) : Except CallbackDataError Unit :=
  if action ≠ "back" ∧ parts = [] then .error ⟨"callback data is incomplete"⟩
  else if action = "back" ∧ parts ≠ [] then .error ⟨"callback action or shape is invalid"⟩
  else if (action :: parts).any fun value => !isCallbackPart value then
    .error ⟨"callback data contains invalid characters"⟩
  else .ok ()

def encodeCallbackData (action : String) (parts : List String) :
    Except CallbackDataError String := do
  validateCallbackParts action parts
  let encoded := join '|' (callbackVersion :: action :: parts)
  if 64 < encoded.utf8ByteSize then
    .error ⟨"callback data exceeds Telegram's 64-byte limit"⟩
  else .ok encoded

/-- The action and the parts that the fields hold. -/
def callbackFields : List String → Except CallbackDataError (String × List String)
  | [] => .error ⟨"callback action or shape is invalid"⟩
  | first :: rest =>
    if first = callbackVersion then
      match rest with
      | [] => .error ⟨"versioned callback data is incomplete"⟩
      | action :: parts => .ok (action, parts)
    else .ok (first, rest)

def decodeCallbackPayload (payload : String) (allowedActions : List String) (maxParts : Int) :
    Except CallbackDataError (String × List String) := do
  if payload = "" ∨ 64 < payload.utf8ByteSize then .error ⟨"invalid callback data"⟩
  else
    let (action, parts) ← callbackFields (split '|' payload)
    if action ∉ allowedActions ∨ maxParts < parts.length then
      .error ⟨"callback action or shape is invalid"⟩
    else
      validateCallbackParts action parts
      return (action, parts)

def decodeCallbackData (payload expectedAction : String) (maxParts : Int) :
    Except CallbackDataError (List String) :=
  (decodeCallbackPayload payload [expectedAction] maxParts).map Prod.snd

/-- The payload carries the version tag. -/
def Versioned (payload : String) : Prop := (split '|' payload).head? = some callbackVersion

instance (payload : String) : Decidable (Versioned payload) :=
  inferInstanceAs (Decidable (_ = _))

variable {action payload text : String} {parts allowed : List String} {maxParts : Int}

theorem separator_not_mem {value : String} (h : isCallbackPart value) : '|' ∉ value.toList := by
  simp only [isCallbackPart, Bool.and_eq_true, List.all_eq_true] at h
  intro hmem
  exact absurd (h.2 _ hmem) (by decide)

theorem validate_iff : validateCallbackParts action parts = .ok () ↔
    (action = "back" ↔ parts = []) ∧ ∀ value ∈ action :: parts, isCallbackPart value := by
  unfold validateCallbackParts
  by_cases hback : action = "back" <;> by_cases hparts : parts = [] <;> simp [hback, hparts]

theorem encode_eq_ok : encodeCallbackData action parts = .ok text ↔
    validateCallbackParts action parts = .ok () ∧ text = join '|' (callbackVersion :: action :: parts) ∧
      text.utf8ByteSize ≤ 64 := by
  unfold encodeCallbackData
  cases hvalid : validateCallbackParts action parts with
  | error error => simp [bind, Except.bind]
  | ok =>
    simp only [bind, Except.bind]
    split_ifs with hsize
    · simp only [false_iff, true_and]
      rintro ⟨rfl, hle⟩
      omega
    · simp only [Except.ok.injEq, true_and]
      constructor
      · rintro rfl
        exact ⟨rfl, by omega⟩
      · exact fun h => h.1.symm

theorem decode_eq_ok : decodeCallbackPayload payload allowed maxParts = .ok (action, parts) ↔
    payload ≠ "" ∧ payload.utf8ByteSize ≤ 64 ∧
      callbackFields (split '|' payload) = .ok (action, parts) ∧ action ∈ allowed ∧
      parts.length ≤ maxParts ∧ validateCallbackParts action parts = .ok () := by
  unfold decodeCallbackPayload
  split_ifs with hsize
  · simp only [false_iff]
    rintro ⟨hne, hle, -⟩
    rcases hsize with hempty | hlong
    · exact hne hempty
    · omega
  · simp only [not_or, Nat.not_lt] at hsize
    cases hfields : callbackFields (split '|' payload) with
    | error error => simp [bind, Except.bind]
    | ok found =>
      obtain ⟨first, rest⟩ := found
      simp only [bind, Except.bind, Except.ok.injEq, Prod.mk.injEq]
      split_ifs with hshape
      · simp only [false_iff]
        rintro ⟨-, -, ⟨rfl, rfl⟩, hallowed, hlength, -⟩
        rcases hshape with hshape | hshape
        · exact hshape hallowed
        · omega
      · simp only [not_or, not_not, Int.not_lt] at hshape
        cases hvalid : validateCallbackParts first rest with
        | error error =>
          simp only [reduceCtorEq, false_iff]
          rintro ⟨-, -, ⟨rfl, rfl⟩, -, -, hok⟩
          rw [hvalid] at hok
          cases hok
        | ok =>
          simp only [pure, Except.pure, Except.ok.injEq, Prod.mk.injEq]
          constructor
          · rintro ⟨rfl, rfl⟩
            exact ⟨hsize.1, hsize.2, ⟨rfl, rfl⟩, hshape.1, hshape.2, hvalid⟩
          · exact fun h => h.2.2.1

theorem fields_versioned (h : Versioned payload) :
    callbackFields (split '|' payload) = .ok (action, parts) ↔
      split '|' payload = callbackVersion :: action :: parts := by
  unfold Versioned at h
  cases hfields : split '|' payload with
  | nil => exact absurd hfields (split_ne_nil payload)
  | cons first rest =>
    obtain rfl : first = callbackVersion := by simpa [hfields] using h
    cases rest with
    | nil => simp [callbackFields]
    | cons second rest => simp [callbackFields]

theorem split_encoded (h : ∀ value ∈ action :: parts, isCallbackPart value) :
    split '|' (join '|' (callbackVersion :: action :: parts)) =
      callbackVersion :: action :: parts := by
  refine split_join ?_ (by simp)
  intro value hvalue
  rcases List.mem_cons.mp hvalue with rfl | hvalue
  · decide
  · exact separator_not_mem (h value hvalue)

theorem decode_encode (h : encodeCallbackData action parts = .ok text) (hallowed : action ∈ allowed)
    (hlength : parts.length ≤ maxParts) :
    decodeCallbackPayload text allowed maxParts = .ok (action, parts) := by
  obtain ⟨hvalid, rfl, hsize⟩ := encode_eq_ok.mp h
  have hfields := split_encoded (validate_iff.mp hvalid).2
  have hversioned : Versioned (join '|' (callbackVersion :: action :: parts)) := by
    simp [Versioned, hfields]
  refine decode_eq_ok.mpr ⟨?_, hsize, (fields_versioned hversioned).mpr hfields, hallowed, hlength,
    hvalid⟩
  intro hempty
  rw [hempty] at hversioned
  exact absurd hversioned (by decide)

theorem encode_decode (hversioned : Versioned payload)
    (h : decodeCallbackPayload payload allowed maxParts = .ok (action, parts)) :
    encodeCallbackData action parts = .ok payload := by
  obtain ⟨-, hsize, hfields, -, -, hvalid⟩ := decode_eq_ok.mp h
  refine encode_eq_ok.mpr ⟨hvalid, ?_, hsize⟩
  rw [← (fields_versioned hversioned).mp hfields, join_split]

/-- A text that fits Telegram's limit, and parts of the permitted characters. -/
def Permitted (text : String) (values : List String) : Prop :=
  text.utf8ByteSize ≤ 64 ∧ ∀ value ∈ values, value ≠ "" ∧ ∀ c ∈ value.toList, isPartChar c

theorem permitted_of_valid (hsize : text.utf8ByteSize ≤ 64)
    (hvalid : validateCallbackParts action parts = .ok ()) : Permitted text (action :: parts) := by
  refine ⟨hsize, fun value hvalue => ?_⟩
  simpa [isCallbackPart] using (validate_iff.mp hvalid).2 value hvalue

/-- The decoder inverts the encoder, and the encoder inverts the decoder on versioned payloads. -/
theorem callback_codec (action : String) (parts : List String) (text : String) :
    (encodeCallbackData action parts = .ok text →
      Permitted text (action :: parts) ∧
        ∀ (allowedActions : List String) (maxParts : Int), action ∈ allowedActions →
          parts.length ≤ maxParts →
          decodeCallbackPayload text allowedActions maxParts = .ok (action, parts)) ∧
      ∀ (allowedActions : List String) (maxParts : Int),
        decodeCallbackPayload text allowedActions maxParts = .ok (action, parts) →
          Permitted text (action :: parts) ∧
            (Versioned text → encodeCallbackData action parts = .ok text) := by
  constructor
  · intro h
    obtain ⟨hvalid, -, hsize⟩ := encode_eq_ok.mp h
    exact ⟨permitted_of_valid hsize hvalid, fun _ _ hallowed hlength =>
      decode_encode h hallowed hlength⟩
  · intro allowed maxParts h
    obtain ⟨-, hsize, -, -, -, hvalid⟩ := decode_eq_ok.mp h
    exact ⟨permitted_of_valid hsize hvalid, fun hversioned => encode_decode hversioned h⟩

theorem callback_codec_quality :
    Permitted "m2|q|7a3f|720" ["q", "7a3f", "720"] ∧
      decodeCallbackPayload "m2|q|7a3f|720" ["q", "back"] 3 = .ok ("q", ["7a3f", "720"]) ∧
      encodeCallbackData "q" ["7a3f", "720"] = .ok "m2|q|7a3f|720" := by
  obtain ⟨hencode, hdecode⟩ := callback_codec "q" ["7a3f", "720"] "m2|q|7a3f|720"
  obtain ⟨hpermitted, hall⟩ := hencode (by decide +kernel)
  have hdecoded := hall ["q", "back"] 3 (by decide) (by decide)
  exact ⟨hpermitted, hdecoded, (hdecode _ _ hdecoded).2 (by decide +kernel)⟩

/-- A payload without the tag is of the previous shape, unless its action is the tag. -/
example : decodeCallbackPayload "q|7a3f" ["q"] 3 = .ok ("q", ["7a3f"]) ∧
    decodeCallbackPayload "m2|q" ["m2", "q"] 3 = .error ⟨"callback data is incomplete"⟩ := by
  decide +kernel

/-- The caller that expects one action gets its parts. -/
theorem decodeCallbackData_encode (h : encodeCallbackData action parts = .ok text)
    (hlength : parts.length ≤ maxParts) :
    decodeCallbackData text action maxParts = .ok parts := by
  rw [decodeCallbackData, decode_encode h List.mem_cons_self hlength]
  rfl

end YtdlBot.Media.Callbacks
