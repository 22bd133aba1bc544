import Mathlib.Data.List.Basic

/-!
# Fields of a text

A text is split at a separator into its fields. Joining the fields gives the text back, and fields
without the separator are got back from the joined text.
-/

namespace YtdlBot.Framework.Texts

def split (sep : Char) (text : String) : List String := (text.toList.splitOn sep).map String.ofList

def join (sep : Char) (values : List String) : String :=
  String.ofList ([sep].intercalate (values.map String.toList))

variable {sep : Char}

theorem split_ne_nil (text : String) : split sep text ≠ [] := by
  simp [split, List.splitOn_ne_nil]

@[simp] theorem join_split (text : String) : join sep (split sep text) = text := by
  have hfields : (split sep text).map String.toList = text.toList.splitOn sep := by
    simp [split, Function.comp_def]
  simp [join, hfields]

theorem split_join {values : List String} (hsep : ∀ value ∈ values, sep ∉ value.toList)
    (hne : values ≠ []) : split sep (join sep values) = values := by
  have hfields : ∀ field ∈ values.map String.toList, sep ∉ field := by
    simpa using hsep
  rw [split, join, String.toList_ofList, List.splitOn_intercalate sep hfields (by simpa using hne)]
  simp [Function.comp_def]

end YtdlBot.Framework.Texts
