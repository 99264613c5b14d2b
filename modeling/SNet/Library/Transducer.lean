import Mathlib.Data.List.Basic

/-!
# Transducers that keep the length

A `Transducer` reads a list from the front and gives one output for each item, which depends on its
state and on the item only. A list may be fed to it in consecutive pieces (`run_append`).
-/

/-- What the state becomes and what is output, for a state and an item. -/
structure Transducer (σ α β : Type*) where
  step : σ → α → σ × β

namespace Transducer

variable {σ α β : Type*} {T : Transducer σ α β} {s : σ} {xs ys : List α} {n : Nat}

/-- The state behind a list and the outputs. -/
def run (T : Transducer σ α β) : σ → List α → σ × List β
  | s, [] => (s, [])
  | s, x :: xs =>
    let first := T.step s x
    let rest := T.run first.1 xs
    (rest.1, first.2 :: rest.2)

@[simp] theorem length_run : (T.run s xs).2.length = xs.length := by
  induction xs generalizing s with
  | nil => rfl
  | cons x xs ih => exact congrArg Nat.succ ih

theorem run_append : T.run s (xs ++ ys) =
    ((T.run (T.run s xs).1 ys).1, (T.run s xs).2 ++ (T.run (T.run s xs).1 ys).2) := by
  induction xs generalizing s with
  | nil => rfl
  | cons x xs ih =>
    rw [List.cons_append, run, run, ih]
    rfl

theorem run_take_drop (n : Nat) : T.run s xs =
    ((T.run (T.run s (xs.take n)).1 (xs.drop n)).1,
      (T.run s (xs.take n)).2 ++ (T.run (T.run s (xs.take n)).1 (xs.drop n)).2) := by
  rw [← run_append, List.take_append_drop]

theorem state_run (n : Nat) :
    (T.run s xs).1 = (T.run (T.run s (xs.take n)).1 (xs.drop n)).1 := by
  conv_lhs => rw [run_take_drop n]

theorem take_run (hn : n ≤ xs.length) : (T.run s xs).2.take n = (T.run s (xs.take n)).2 := by
  rw [run_take_drop n]
  apply List.take_left'
  rw [length_run, List.length_take, Nat.min_eq_left hn]

theorem drop_run (hn : n ≤ xs.length) :
    (T.run s xs).2.drop n = (T.run (T.run s (xs.take n)).1 (xs.drop n)).2 := by
  rw [run_take_drop n]
  apply List.drop_left'
  rw [length_run, List.length_take, Nat.min_eq_left hn]

end Transducer
