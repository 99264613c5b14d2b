import Mathlib.Data.List.TakeWhile
import Mathlib.Data.List.Basic

/-!
# Scanning a text

A machine with the transitions `step` scans a text as `List.foldl step`. The characters of a class
that keeps a state are read in one piece (`exists_run`); what follows them is nothing, or begins with
a character that is not of the class. A scan that does not end in a trap was never there
(`ne_of_foldl_ne`).
-/

namespace Scan

variable {σ α : Type*} {step : σ → α → σ} {s trap : σ} {P : α → Bool} {c : α} {l : List α}

theorem foldl_stay (h : ∀ c ∈ l, step s c = s) : l.foldl step s = s := by
  induction l with
  | nil => rfl
  | cons c l ih =>
    rw [List.forall_mem_cons] at h
    rw [List.foldl_cons, h.1, ih h.2]

/-- From a trap there is no way out. -/
theorem ne_of_foldl_ne (htrap : ∀ c, step trap c = trap) (h : l.foldl step s ≠ trap) : s ≠ trap := by
  rintro rfl
  exact h (List.foldl_fixed' htrap l)

/-- The first character of a scan that does not end in a trap does not lead there. -/
theorem step_ne_of_foldl_ne (htrap : ∀ c, step trap c = trap) (h : (c :: l).foldl step s ≠ trap) :
    step s c ≠ trap :=
  ne_of_foldl_ne htrap (l := l) h

theorem drop_length_takeWhile (P : α → Bool) (l : List α) :
    l.drop (l.takeWhile P).length = l.dropWhile P := by
  calc l.drop (l.takeWhile P).length
      = (l.takeWhile P ++ l.dropWhile P).drop (l.takeWhile P).length := by
        rw [List.takeWhile_append_dropWhile]
    _ = l.dropWhile P := List.drop_left

/-- The run of the characters that keep a state, and what follows it. -/
theorem exists_run (hP : ∀ c, P c → step s c = s) (l : List α) :
    ∃ run rest, l = run ++ rest ∧ (∀ c ∈ run, P c) ∧ l.foldl step s = rest.foldl step s ∧
      ∀ c ∈ rest.head?, ¬ P c := by
  refine ⟨l.takeWhile P, l.dropWhile P, List.takeWhile_append_dropWhile.symm,
    fun c hc => List.mem_takeWhile_imp hc, ?_, ?_⟩
  · conv_lhs => rw [← List.takeWhile_append_dropWhile (p := P) (l := l)]
    rw [List.foldl_append, foldl_stay fun c hc => hP c (List.mem_takeWhile_imp hc)]
  · intro c hc
    have hnot := List.head?_dropWhile_not P l
    rw [Option.mem_def.1 hc] at hnot
    simpa using hnot

/-- If every other character leads into the trap, what is read there is of the class. -/
theorem forall_of_foldl_ne (htrap : ∀ c, step trap c = trap) (hP : ∀ c, P c → step s c = s)
    (hnot : ∀ c, ¬ P c → step s c = trap) (h : l.foldl step s ≠ trap) : ∀ c ∈ l, P c := by
  obtain ⟨run, rest, rfl, hrun, hfold, hrest⟩ := exists_run hP l
  cases rest with
  | nil => rwa [List.append_nil]
  | cons c rest =>
    rw [hfold] at h
    exact absurd (hnot c (hrest c rfl)) (step_ne_of_foldl_ne htrap h)

end Scan
