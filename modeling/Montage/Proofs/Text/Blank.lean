import Mathlib.Data.List.Basic
import Montage.Text.Blank

/- Trimming takes blanks off the ends and nothing else. -/
namespace Montage.Text

theorem trim_subset (cs : List Char) : trim cs ⊆ cs := by
  intro c member
  rw [trim, trimEnd, List.mem_reverse] at member
  have inner := (List.dropWhile_sublist isBlank).subset member
  rw [List.mem_reverse] at inner
  exact (List.dropWhile_sublist isBlank).subset inner

theorem trimStart_plain {cs : List Char} (plain : ∀ c ∈ cs, isBlank c = false) :
    trimStart cs = cs := by
  cases cs with
  | nil => rfl
  | cons c cs => simp [trimStart, plain c]

theorem trim_plain {cs : List Char} (plain : ∀ c ∈ cs, isBlank c = false) : trim cs = cs := by
  have turned : trimStart cs.reverse = cs.reverse := trimStart_plain (by simpa using plain)
  rw [trimStart] at turned
  rw [trim, trimStart_plain plain, trimEnd, turned, List.reverse_reverse]

end Montage.Text
