import Mathlib.Data.List.Basic
import Mathlib.Algebra.Ring.Nat

/-!
# Binary heaps

Arrays that are kept as binary trees by sifting, for an arbitrary comparison: what is pushed rises
while it stands before its parent, and what is popped stood at the front. Pushing and popping change
nothing but the order of what else is there; pushing changes the front only for something that
stands before it (`push_front`).
-/

namespace BinaryHeap

variable {α : Type*} (before : α → α → Bool)

/-- The element at `i` rises while it stands before its parent. -/
def siftUp : (fuel : Nat) → Array α → (i : Nat) → Array α
  | 0, xs, _ => xs
  | fuel + 1, xs, i =>
    match xs[i]?, xs[(i - 1) / 2]? with
    | some x, some parent =>
      if before x parent then siftUp fuel (xs.swapIfInBounds i ((i - 1) / 2)) ((i - 1) / 2) else xs
    | _, _ => xs

/-- The child of `i` that stands before the other. -/
def firstChild (xs : Array α) (i : Nat) : Nat :=
  match xs[2 * i + 1]?, xs[2 * i + 2]? with
  | some left, some right => if before right left then 2 * i + 2 else 2 * i + 1
  | _, _ => 2 * i + 1

/-- The element at `i` sinks while a child stands before it. -/
def siftDown : (fuel : Nat) → Array α → (i : Nat) → Array α
  | 0, xs, _ => xs
  | fuel + 1, xs, i =>
    match xs[i]?, xs[firstChild before xs i]? with
    | some x, some child =>
      if before child x then
        siftDown fuel (xs.swapIfInBounds i (firstChild before xs i)) (firstChild before xs i)
      else xs
    | _, _ => xs

/-- `x` is appended and rises. -/
def push (xs : Array α) (x : α) : Array α := siftUp before xs.size (xs.push x) xs.size

/-- The front changes places with the last element, which sinks, and is taken out. -/
def pop (xs : Array α) : Array α :=
  let ys := (xs.swapIfInBounds 0 (xs.size - 1)).pop
  siftDown before ys.size ys 0

variable {before} {fuel i j k : Nat} {xs : Array α} {x y front : α}

theorem getElem?_swapIfInBounds (hi : xs[i]? = some x) (hj : xs[j]? = some y) :
    (xs.swapIfInBounds i j)[k]? = if j = k then some x else if i = k then some y else xs[k]? := by
  obtain ⟨hi', rfl⟩ := Array.getElem?_eq_some_iff.1 hi
  obtain ⟨hj', rfl⟩ := Array.getElem?_eq_some_iff.1 hj
  rw [Array.swapIfInBounds_def, dif_pos hi', dif_pos hj', Array.getElem?_swap]

theorem swapIfInBounds_perm : (xs.swapIfInBounds i j).toList.Perm xs.toList := by
  rw [Array.swapIfInBounds_def]
  split
  · split
    · exact (Array.swap_perm _ _).toList
    · exact .refl _
  · exact .refl _

theorem siftUp_perm : (siftUp before fuel xs i).toList.Perm xs.toList := by
  induction fuel generalizing xs i with
  | zero => exact .refl _
  | succ fuel ih =>
    rw [siftUp]
    split
    · split
      · exact ih.trans swapIfInBounds_perm
      · exact .refl _
    · exact .refl _

theorem siftDown_perm : (siftDown before fuel xs i).toList.Perm xs.toList := by
  induction fuel generalizing xs i with
  | zero => exact .refl _
  | succ fuel ih =>
    rw [siftDown]
    split
    · split
      · exact ih.trans swapIfInBounds_perm
      · exact .refl _
    · exact .refl _

theorem push_perm : (push before xs x).toList.Perm (x :: xs.toList) := by
  refine siftUp_perm.trans ?_
  rw [Array.toList_push]
  exact List.perm_append_singleton x xs.toList

theorem pop_perm (h : xs[0]? = some front) : (front :: (pop before xs).toList).Perm xs.toList := by
  have hpos : 0 < xs.size := (Array.getElem?_eq_some_iff.1 h).1
  have hlast : xs[xs.size - 1]? = some xs[xs.size - 1] :=
    Array.getElem?_eq_getElem (Nat.sub_lt hpos Nat.zero_lt_one)
  have hback : (xs.swapIfInBounds 0 (xs.size - 1)).back? = some front := by
    rw [Array.back?_eq_getElem?, Array.size_swapIfInBounds, getElem?_swapIfInBounds h hlast,
      if_pos rfl]
  obtain ⟨ys, hys⟩ := Array.back?_eq_some_iff.1 hback
  have hperm : (ys.push front).toList.Perm xs.toList := hys ▸ swapIfInBounds_perm
  rw [pop, hys, Array.pop_push]
  refine (siftDown_perm.cons front).trans ?_
  rw [Array.toList_push] at hperm
  exact (List.perm_append_singleton front ys.toList).symm.trans hperm

/-- What rises past no front leaves it. -/
theorem siftUp_front (hx : xs[i]? = some x) (hfront : xs[0]? = some front) (hi : 0 < i)
    (hbefore : before x front = false) : (siftUp before fuel xs i)[0]? = some front := by
  induction fuel generalizing xs i with
  | zero => exact hfront
  | succ fuel ih =>
    rw [siftUp, hx]
    cases hparent : xs[(i - 1) / 2]? with
    | none => exact hfront
    | some parent =>
      dsimp only
      split
      · next hrise =>
        have hpos : 0 < (i - 1) / 2 := by
          refine Nat.pos_of_ne_zero fun hzero => ?_
          rw [hzero, hfront] at hparent
          cases hparent
          cases hbefore.symm.trans hrise
        refine ih ?_ ?_ hpos
        · rw [getElem?_swapIfInBounds hx hparent, if_pos rfl]
        · rw [getElem?_swapIfInBounds hx hparent, if_neg (Nat.ne_of_gt hpos),
            if_neg (Nat.ne_of_gt hi), hfront]
      · exact hfront

/-- What does not stand before the front leaves it there. -/
theorem push_front (hfront : xs[0]? = some front) (hbefore : before x front = false) :
    (push before xs x)[0]? = some front := by
  have hpos : 0 < xs.size := (Array.getElem?_eq_some_iff.1 hfront).1
  refine siftUp_front Array.getElem?_push_size ?_ hpos hbefore
  rw [Array.getElem?_push, if_neg (Nat.ne_of_lt hpos), hfront]

end BinaryHeap
