import Mathlib.Data.List.Basic

/-!
# Lines of a text

A line ends with a line feed, with or without a carriage return in front of it, and the head of a text
is its lines up to the first empty one. Lines that are written one after the other are the lines of
the head exactly when none of them has a line feed in it (`head_flatMap_iff`).
-/

namespace Lines

/-- The end of a line that is written. -/
def eol : List UInt8 := [13, 10]

/-- A line without the carriage return at its end. -/
def chomp (l : List UInt8) : List UInt8 := if l.getLast? = some 13 then l.dropLast else l

def lines (text : List UInt8) : List (List UInt8) := (text.splitOn 10).map chomp

/-- The lines up to the first empty one. -/
def head (text : List UInt8) : List (List UInt8) := (lines text).takeWhile (!·.isEmpty)

variable {l text rest : List UInt8} {ls : List (List UInt8)}

theorem chomp_subset : chomp l ⊆ l := by
  rw [chomp]
  split
  · exact List.dropLast_subset l
  · exact List.Subset.refl l

theorem chomp_concat : chomp (l ++ [13]) = l := by
  rw [chomp, List.getLast?_concat, if_pos rfl, List.dropLast_concat]

/-- No piece of a text has the separator in it. -/
theorem not_mem_of_mem_splitOn {sep : UInt8} (h : l ∈ text.splitOn sep) : sep ∉ l := by
  induction text generalizing l with
  | nil =>
    rw [List.splitOn_nil, List.mem_singleton] at h
    rw [h]
    exact List.not_mem_nil
  | cons c text ih =>
    rw [List.splitOn_cons_eq_if_modifyHead] at h
    split at h
    · rcases List.mem_cons.1 h with rfl | hmem
      · exact List.not_mem_nil
      · exact ih hmem
    · next hc =>
      cases hsplit : text.splitOn sep with
      | nil => exact absurd hsplit (List.splitOn_ne_nil sep text)
      | cons first others =>
        rw [hsplit] at h ih
        rcases List.mem_cons.1 h with rfl | hmem
        · rw [List.mem_cons, not_or]
          exact ⟨fun heq => hc (beq_iff_eq.2 heq.symm), ih List.mem_cons_self⟩
        · exact ih (List.mem_cons_of_mem _ hmem)

/-- No line of the head has a line feed in it. -/
theorem not_mem_of_mem_head (h : l ∈ head text) : 10 ∉ l := by
  obtain ⟨piece, hpiece, rfl⟩ := List.mem_map.1 ((List.takeWhile_subset _) h)
  exact fun hmem => not_mem_of_mem_splitOn hpiece (chomp_subset hmem)

/-- A line that is written is a line of the text. -/
theorem lines_append (h : 10 ∉ l) : lines (l ++ eol ++ rest) = l :: lines rest := by
  have hpiece : 10 ∉ l ++ [13] := by
    rw [List.mem_append, not_or]
    exact ⟨h, by decide⟩
  have htext : l ++ eol ++ rest = (l ++ [13]) ++ 10 :: rest := by simp [eol]
  rw [lines, htext, List.splitOn_append_cons_self_of_not_mem hpiece, List.map_cons, chomp_concat]
  rfl

theorem head_flatMap (h : ∀ l ∈ ls, l ≠ [] ∧ 10 ∉ l) :
    head (ls.flatMap (· ++ eol) ++ eol ++ rest) = ls := by
  induction ls with
  | nil =>
    have hblank := @lines_append [] rest List.not_mem_nil
    rw [List.nil_append] at hblank
    rw [List.flatMap_nil, List.nil_append, head, hblank]
    rfl
  | cons l ls ih =>
    rw [List.forall_mem_cons] at h
    have hline : (!l.isEmpty) = true := by
      rw [Bool.not_eq_true', List.isEmpty_eq_false_iff]
      exact h.1.1
    rw [List.flatMap_cons, List.append_assoc, List.append_assoc, head, lines_append h.1.2,
      List.takeWhile_cons_of_pos (p := fun l : List UInt8 => !l.isEmpty) hline, ← List.append_assoc]
    exact congrArg (l :: ·) (ih h.2)

/-- **When lines are what is read of them.** -/
theorem head_flatMap_iff (hne : ∀ l ∈ ls, l ≠ []) :
    head (ls.flatMap (· ++ eol) ++ eol ++ rest) = ls ↔ ∀ l ∈ ls, 10 ∉ l := by
  constructor
  · intro hhead l hl
    rw [← hhead] at hl
    exact not_mem_of_mem_head hl
  · exact fun h => head_flatMap fun l hl => ⟨hne l hl, h l hl⟩

end Lines
