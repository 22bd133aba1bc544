import Mathlib.Algebra.Order.Field.Rat
import Mathlib.Data.Rat.Floor
import YtdlBot.MediaCache.Records

/-!
# Cache records stay with their callers

Every record lies under the key of the query it was put for, so a query that finds a record is for
the same output and the same scope.
-/

namespace YtdlBot.MediaCache

open Framework

variable {τ : Type} {hexdigest : String → String}

namespace Store

variable {s : Store τ}

/-- Every record lies under the key of its query. -/
def Keyed (hexdigest : String → String) (s : Store τ) : Prop :=
  s.All fun key e => recordKey hexdigest e.settings e.query = .ok key

theorem lasting_keyed : Memory.Lasting fun key (e : Entry τ) =>
    recordKey hexdigest e.settings e.query = .ok key :=
  fun _ _ _ h => h

end Store

open Store Memory

section Operations

variable [LinearOrder τ] [Field τ] [FloorRing τ] {c : Cache τ} {q : Query} {s : Store τ}
  {now later : τ} {request : MediaRequest}

omit [LinearOrder τ] [Field τ] [FloorRing τ] in
theorem Keyed.atKey {α : Type} {f : String → Store τ → Except CacheError α × Store τ}
    (hs : Keyed hexdigest s) (hf : ∀ key, recordKey hexdigest c.settings q = .ok key →
      Keyed hexdigest (f key s).2) : Keyed hexdigest (atKey hexdigest c q f s).2 := by
  unfold MediaCache.atKey
  split
  · exact hs
  · next key hkey => exact hf key hkey

omit [FloorRing τ] in
theorem Keyed.getRecord {α : Type} (hs : Keyed hexdigest s) (touchTtl : Option τ)
    (decode : Payload τ → Option α) :
    Keyed hexdigest (getRecord hexdigest c now later q touchTtl decode s).2 := by
  apply Keyed.atKey hs
  intro key hkey
  have hget := hs.get lasting_keyed key touchTtl now later
  split
  · next h => rwa [h] at hget
  · next payload s' h =>
    rw [h] at hget
    split
    · exact hget.delete key
    · exact hget

omit [FloorRing τ] in
theorem Keyed.putRecord (hs : Keyed hexdigest s) (payload : Payload τ) (ttl : τ) :
    Keyed hexdigest (putRecord hexdigest c now later q payload ttl s).2 :=
  Keyed.atKey hs fun _ hkey => hs.set lasting_keyed hkey ttl now later

theorem publicWorkRequest_eq (r : MediaRequest) : publicWorkRequest r = cacheScopeRequest r := by
  unfold publicWorkRequest cacheScopeRequest
  by_cases hpublic : r.authScope = "public"
  · by_cases hcaller : r.callerScope = "public"
    · rw [if_neg (fun h => h.2 hcaller), if_pos hpublic]
      cases r
      simp only at hcaller
      rw [hcaller]
    · rw [if_pos ⟨hpublic, hcaller⟩, if_pos hpublic]
  · rw [if_neg (fun h => hpublic h.1), if_neg hpublic]

end Operations

section Witness

/-- A private photo, asked for by one of two callers. -/
def seen (callerScope : String) : MediaRequest :=
  ⟨"https://i/m", "instagram", "m", .photo, ⟨none⟩, none, none, ⟨none, none⟩, [], true, callerScope,
    "instagram:t", true, none, none⟩

/-- The digests of the payloads of both requests and of the identities of their metadata. -/
def digests : List (String × String) :=
  let identity (digest : String) := Json.dumps
    [("request", text ("media:v1:" ++ digest)), ("transform", text "pipeline-v1"),
      ("bot", .scalar .null), ("item", .scalar .null), ("variant", .scalar .null)]
  [(Json.dumps (payload (seen "private")),
      "4c68358b374dbce81464ea4a0f94aa19b758bef9723d36cee802778b9409d578"),
    (Json.dumps (payload (seen "api")),
      "152d902b123b83b5fa9d291b299452573bf78f5128d2d27b88a6851d293ea7ce"),
    (identity "4c68358b374dbce81464ea4a0f94aa19b758bef9723d36cee802778b9409d578",
      "9356f292c36d99ea429920fd61c536a34109871d72697761e6ed6f9e022ad31b"),
    (identity "152d902b123b83b5fa9d291b299452573bf78f5128d2d27b88a6851d293ea7ce",
      "64d29a08c77f73722a212adc2f32c2cdfc67fba9e99ec34bab71d100880d6064")]

/-- Each character by two escapes. -/
def spelled (cs : List Char) : List Char :=
  cs.flatMap fun c =>
    Json.unicodeEscape (c.toNat / 0x10000) ++ Json.unicodeEscape (c.toNat % 0x10000)

/-- The digests above, and another text for every other input. -/
def digestOf (s : String) : String :=
  match digests.find? fun p => p.1 == s with
  | some p => p.2
  | none => String.ofList ('-' :: spelled s.toList)

end Witness

end YtdlBot.MediaCache
