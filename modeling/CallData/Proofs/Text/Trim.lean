/-
CallData/Proofs/Text/Trim.lean

What trimming a text keeps.

Trimming drops blanks from the two ends and nothing else: a character that is not blank is kept,
so only a blank text is trimmed to nothing, and a text between two such characters stays as it
is.
-/
import CallData.Text.Blank
import Mathlib.Data.List.DropRight

namespace CallData.Text

variable {cs ds : List Char} {c d : Char}

theorem trim_eq_rdropWhile (cs : List Char) :
    trim cs = (cs.dropWhile isBlank).rdropWhile isBlank := rfl

theorem isBlankText_iff : isBlankText cs = true ↔ ∀ c ∈ cs, isBlank c = true := List.all_eq_true

/-! ### What is kept -/

theorem mem_of_mem_trim (h : c ∈ trim cs) : c ∈ cs := by
  rw [trim_eq_rdropWhile] at h
  exact (List.dropWhile_sublist _).subset ((List.rdropWhile_prefix _ _).subset h)

theorem mem_dropWhile_isBlank (h : c ∈ cs) (hc : isBlank c = false) :
    c ∈ cs.dropWhile isBlank := by
  rw [← List.takeWhile_append_dropWhile (p := isBlank) (l := cs)] at h
  rcases List.mem_append.mp h with hfront | hrest
  · have hblank := List.mem_takeWhile_imp hfront
    rw [hc] at hblank
    contradiction
  · exact hrest

theorem mem_trim (h : c ∈ cs) (hc : isBlank c = false) : c ∈ trim cs := by
  rw [trim, List.mem_reverse]
  exact mem_dropWhile_isBlank (List.mem_reverse.mpr (mem_dropWhile_isBlank h hc)) hc

theorem trim_eq_nil_iff : trim cs = [] ↔ isBlankText cs = true := by
  constructor
  · intro h
    rw [isBlankText_iff]
    intro c hc
    by_contra hblank
    have hmem : c ∈ trim cs := mem_trim hc (Bool.eq_false_iff.mpr hblank)
    rw [h] at hmem
    contradiction
  · intro h
    have hfront : cs.dropWhile isBlank = [] := List.dropWhile_eq_nil_iff.mpr (isBlankText_iff.mp h)
    rw [trim_eq_rdropWhile, hfront, List.rdropWhile_nil]

/-! ### Where blanks are dropped -/

/-- Dropping stops at a character that is not blank. -/
theorem dropWhile_append_cons (hc : isBlank c = false) (cs ds : List Char) :
    (cs ++ c :: ds).dropWhile isBlank = cs.dropWhile isBlank ++ c :: ds := by
  rw [List.dropWhile_append]
  split
  · rename_i h
    rw [List.isEmpty_iff.mp h, List.dropWhile_cons_of_neg (by simp [hc])]
    rfl
  · rfl

/-- A text that ends in a character that is not blank loses blanks at its front only. -/
theorem trim_append_cons (hc : isBlank c = false) (hd : isBlank d = false) (cs ds : List Char) :
    trim (cs ++ c :: ds ++ [d]) = cs.dropWhile isBlank ++ c :: ds ++ [d] := by
  rw [trim_eq_rdropWhile, List.append_assoc, List.cons_append, dropWhile_append_cons hc,
    ← List.cons_append, ← List.append_assoc, List.rdropWhile_concat_neg _ _ _ (by simp [hd])]

/-- Trimming drops the blanks at the front first, so it does not matter if they are gone. -/
theorem trim_dropWhile (cs : List Char) : trim (cs.dropWhile isBlank) = trim cs := by
  rw [trim_eq_rdropWhile, trim_eq_rdropWhile, List.dropWhile_idempotent]

theorem isBlankText_dropWhile (cs : List Char) :
    isBlankText (cs.dropWhile isBlank) = isBlankText cs := by
  rw [Bool.eq_iff_iff, ← trim_eq_nil_iff, ← trim_eq_nil_iff, trim_dropWhile]

/-- What is trimmed has no blank at its front. -/
theorem dropWhile_trim (cs : List Char) : (trim cs).dropWhile isBlank = trim cs := by
  rcases htrim : trim cs with _ | ⟨c, rest⟩
  · rfl
  · -- the first character that is left is the first one that is not blank
    obtain ⟨after, hafter⟩ := List.rdropWhile_prefix isBlank (cs.dropWhile isBlank)
    rw [← trim_eq_rdropWhile, htrim] at hafter
    have hfirst := List.head?_dropWhile_not isBlank cs
    rw [← hafter, List.cons_append, List.head?_cons] at hfirst
    exact List.dropWhile_cons_of_neg (by simp [hfirst])

theorem trim_trim (cs : List Char) : trim (trim cs) = trim cs := by
  rw [trim_eq_rdropWhile (trim cs), dropWhile_trim, trim_eq_rdropWhile, List.rdropWhile_idempotent]

theorem isBlankText_trim (cs : List Char) : isBlankText (trim cs) = isBlankText cs := by
  rw [Bool.eq_iff_iff, ← trim_eq_nil_iff, ← trim_eq_nil_iff, trim_trim]

end CallData.Text
