import Mathlib.Data.List.Basic

/-!
Texts joined by a separator, and when the parts can be read back.
-/

namespace DurableTasks

/-- `strings.Split` at one character. -/
def splitText (c : Char) (s : String) : List String := (s.toList.splitOn c).map String.ofList

def joinText (c : Char) (parts : List String) : String := (String.singleton c).intercalate parts

variable {c : Char}

theorem splitText_joinText {parts : List String} (hparts : parts ≠ [])
    (hfree : ∀ p ∈ parts, c ∉ p.toList) : splitText c (joinText c parts) = parts := by
  have hlists : ∀ l ∈ parts.map String.toList, c ∉ l := by
    rintro l hl
    obtain ⟨p, hp, rfl⟩ := List.mem_map.mp hl
    exact hfree p hp
  rw [splitText, joinText, String.toList_intercalate, String.toList_singleton,
    List.splitOn_intercalate c hlists (by simpa using hparts), List.map_map]
  simp [Function.comp_def]

theorem joinText_splitText (s : String) : joinText c (splitText c s) = s := by
  apply String.toList_inj.mp
  rw [joinText, String.toList_intercalate, String.toList_singleton, splitText, List.map_map,
    show String.toList ∘ String.ofList = id from funext fun l => String.toList_ofList, List.map_id]
  exact List.intercalate_splitOn c

/-- Parts without the separator can be told apart. -/
theorem joinText_inj {parts parts' : List String} (hparts : parts ≠ []) (hparts' : parts' ≠ [])
    (hfree : ∀ p ∈ parts, c ∉ p.toList) (hfree' : ∀ p ∈ parts', c ∉ p.toList)
    (h : joinText c parts = joinText c parts') : parts = parts' := by
  rw [← splitText_joinText hparts hfree, h, splitText_joinText hparts' hfree']

/-- The first separator divides a text in one way. -/
theorem append_singleton_inj {a a' b b' : String} (ha : c ∉ a.toList) (ha' : c ∉ a'.toList)
    (h : a ++ String.singleton c ++ b = a' ++ String.singleton c ++ b') : a = a' ∧ b = b' := by
  have hlists : a.toList ++ c :: b.toList = a'.toList ++ c :: b'.toList := by
    simpa using congrArg String.toList h
  have hsplit : ∀ {l r : List Char}, c ∉ l → (l ++ c :: r).takeWhile (· ≠ c) = l := by
    intro l r hl
    have hne : ∀ x ∈ l, decide (x ≠ c) = true := by
      intro x hx
      exact decide_eq_true fun heq => hl (heq ▸ hx)
    rw [List.takeWhile_append_of_pos hne]
    simp
  have hfirst : a.toList = a'.toList := by
    rw [← hsplit ha, hlists, hsplit ha']
  rw [hfirst] at hlists
  exact ⟨String.toList_inj.mp hfirst, String.toList_inj.mp (by simpa using hlists)⟩

/-- The last separator does, too. -/
theorem append_singleton_inj_right {a a' b b' : String} (hb : c ∉ b.toList) (hb' : c ∉ b'.toList)
    (h : a ++ String.singleton c ++ b = a' ++ String.singleton c ++ b') : a = a' ∧ b = b' := by
  have hlists : b.toList.reverse ++ c :: a.toList.reverse =
      b'.toList.reverse ++ c :: a'.toList.reverse := by
    simpa using congrArg (fun s : String => s.toList.reverse) h
  have hstrings : String.ofList b.toList.reverse = String.ofList b'.toList.reverse ∧
      String.ofList a.toList.reverse = String.ofList a'.toList.reverse :=
    append_singleton_inj (c := c) (by simpa using hb) (by simpa using hb')
      (String.toList_inj.mp (by simpa using hlists))
  simp only [String.ofList_inj, List.reverse_inj, String.toList_inj] at hstrings
  exact ⟨hstrings.2, hstrings.1⟩

end DurableTasks
