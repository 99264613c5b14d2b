import Mathlib.Data.List.Basic

/-!
# Positions in a growing trace

A safety property of a trace is stated of every way to split it at an event. When the trace grows,
a split is an old one or lies in what was added (`Trace.split_append`).
-/

namespace Trace

variable {α : Type*} {x w tr evs : List α} {e : α}

theorem split_append (h : tr ++ evs = x ++ e :: w) :
    (∃ v, tr = x ++ e :: v ∧ w = v ++ evs) ∨ ∃ y, x = tr ++ y ∧ evs = y ++ e :: w := by
  obtain ⟨y, hx, hevs⟩ | ⟨y, htr, hw⟩ := List.append_eq_append_iff.1 h
  · exact .inr ⟨y, hx, hevs⟩
  · cases y with
    | nil => exact .inr ⟨[], by simpa using htr.symm, hw.symm⟩
    | cons b y =>
      obtain ⟨rfl, rfl⟩ := List.cons.inj hw
      exact .inl ⟨y, htr, rfl⟩

/-- A split at an event that was not added is an old one. -/
theorem split_append_of_notMem (h : tr ++ evs = x ++ e :: w) (he : e ∉ evs) :
    ∃ v, tr = x ++ e :: v ∧ w = v ++ evs := by
  obtain h | ⟨y, -, rfl⟩ := split_append h
  · exact h
  · exact absurd (List.mem_append_right _ List.mem_cons_self) he

end Trace
