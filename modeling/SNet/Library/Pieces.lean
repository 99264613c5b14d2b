import Mathlib.Data.List.Basic

/-!
# Strings in pieces

A `Cut` is a string in consecutive pieces, of which there is at least one. A reader that keeps what
came last has the string exactly if nothing came before it (`last_eq_whole_iff`); one that makes an
item of every piece makes one for each string exactly if each of them is in one piece
(`flatMap_eq_map_iff`).
-/

/-- The pieces of a string. -/
structure Cut (α : Type*) where
  front : List (List α)
  last : List α
  deriving DecidableEq, Repr

namespace Cut

variable {α β σ : Type*} {c : Cut α}

def pieces (c : Cut α) : List (List α) := c.front ++ [c.last]

/-- The string. -/
def whole (c : Cut α) : List α := c.front.flatten ++ c.last

/-- The string in one piece. -/
def join (c : Cut α) : Cut α := ⟨[], c.whole⟩

/-- All of the string is in the last piece. -/
def Idle (c : Cut α) : Prop := ∀ p ∈ c.front, p = []

theorem pieces_ne_nil : c.pieces ≠ [] := List.append_ne_nil_of_right_ne_nil _ (List.cons_ne_nil _ _)

theorem flatten_pieces : c.pieces.flatten = c.whole := by
  rw [pieces, List.flatten_append, List.flatten_singleton, whole]

theorem last_eq_whole_iff : c.last = c.whole ↔ c.Idle := by
  rw [whole, List.self_eq_append_left, List.flatten_eq_nil_iff, Idle]

/-- A string in one piece. -/
theorem pieces_eq_singleton_iff : c.pieces = [c.whole] ↔ c.front = [] := by
  constructor
  · intro h
    have hlen := congrArg List.length h
    rw [pieces, List.length_append, List.length_singleton, List.length_singleton] at hlen
    exact List.length_eq_zero_iff.1 (Nat.succ.inj hlen)
  · intro h
    rw [pieces, whole, h]
    rfl

/-- A state that each piece replaces shows the last one. -/
theorem foldl_pieces {f : σ → List α → σ} {s : σ} (h : ∀ s p q, f (f s p) q = f s q) :
    c.pieces.foldl f s = f s c.last := by
  obtain ⟨front, last⟩ := c
  rw [pieces]
  induction front generalizing s with
  | nil => rfl
  | cons p front ih =>
    rw [List.cons_append, List.foldl_cons, ih, h]

theorem length_le_flatMap {f : α → List β} {l : List α} (hf : ∀ a ∈ l, f a ≠ []) :
    l.length ≤ (l.flatMap f).length := by
  induction l with
  | nil => exact Nat.le_refl 0
  | cons a l ih =>
    rw [List.forall_mem_cons] at hf
    rw [List.flatMap_cons, List.length_append, List.length_cons, Nat.add_comm]
    exact Nat.add_le_add (List.length_pos_iff.2 hf.1) (ih hf.2)

/-- Lists that are not empty put in a row are single items if and only if each of them is one. -/
theorem flatMap_eq_map_iff {f : α → List β} {g : α → β} {l : List α} (hf : ∀ a ∈ l, f a ≠ []) :
    l.flatMap f = l.map g ↔ ∀ a ∈ l, f a = [g a] := by
  induction l with
  | nil => simp
  | cons a l ih =>
    rw [List.forall_mem_cons] at hf ⊢
    rw [← ih hf.2, List.flatMap_cons, List.map_cons]
    constructor
    · intro h
      have hlen := congrArg List.length h
      have hrest := length_le_flatMap hf.2
      have hfirst := List.length_pos_iff.2 hf.1
      rw [List.length_append, List.length_cons, List.length_map] at hlen
      have hone : (f a).length = 1 := by omega
      obtain ⟨b, hb⟩ := List.length_eq_one_iff.1 hone
      rw [hb, List.singleton_append, List.cons.injEq] at h
      rw [hb, h.1]
      exact ⟨rfl, h.2⟩
    · intro ⟨hfirst, hrest⟩
      rw [hfirst, hrest]
      rfl

end Cut
