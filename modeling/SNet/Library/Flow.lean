import Mathlib.Data.List.Basic

/-!
# First-in first-out flow

`FifoFlow xs inn out ys` says that a store which held `xs` took in `inn`, gave out `out` and holds
`ys` now, in order and without loss or duplication. Flows compose (`FifoFlow.trans`), so it is enough
to prove one for each operation of a store to have one for all its runs.
-/

/-- What was held, followed by what came in, is what went out followed by what is held now. -/
def FifoFlow {α : Type*} (xs inn out ys : List α) : Prop := xs ++ inn = out ++ ys

namespace FifoFlow

variable {α : Type*} {xs ys zs inn inn' out out' : List α}

theorem refl : FifoFlow xs [] [] xs := by simp [FifoFlow]

theorem still (hin : inn = []) (hout : out = []) (h : ys = xs) : FifoFlow xs inn out ys := by
  subst hin hout h
  exact refl

/-- Taking in at the end. -/
theorem push : FifoFlow xs inn [] (xs ++ inn) := by simp [FifoFlow]

/-- Giving out at the front. -/
theorem take (n : Nat) : FifoFlow xs [] (xs.take n) (xs.drop n) := by simp [FifoFlow]

theorem trans (h : FifoFlow xs inn out ys) (h' : FifoFlow ys inn' out' zs) :
    FifoFlow xs (inn ++ inn') (out ++ out') zs := by
  simp only [FifoFlow] at *
  rw [← List.append_assoc, h, List.append_assoc, h', List.append_assoc]

theorem nil_left (h : FifoFlow [] inn out ys) : inn = out ++ ys := h

end FifoFlow
