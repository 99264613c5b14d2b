import Mathlib.Data.List.Basic
import Mathlib.Data.List.Range
import Mathlib.Logic.Function.Basic

/-!
# Memory cells and the lists that stand in them

A block of memory is a function from cell numbers to values. `slice m a n` is the list that stands
in the `n` cells from `a` on, `write m a xs` stores a list from `a` on, and `move m a` is the
memory with the cells from `a` on moved down to the start. `ring` and `ringWrite` are `slice` and
`write` on the first `cap` cells, closed to a ring.
-/

namespace Memory

variable {α : Type*} {m : Nat → α} {a b k n : Nat} {xs : List α}

/-- The contents of the `n` cells from `a` on. -/
def slice (m : Nat → α) (a n : Nat) : List α := (List.range n).map fun i => m (a + i)

/-- `m` with `xs` stored from cell `a` on. -/
def write (m : Nat → α) (a : Nat) (xs : List α) : Nat → α :=
  fun i => if a ≤ i then xs.getD (i - a) (m i) else m i

/-- `m` with the `n` cells from `a` on copied to the first cells, as `memmove` does. -/
def move (m : Nat → α) (a n : Nat) : Nat → α := fun i => if i < n then m (a + i) else m i

@[simp] theorem length_slice : (slice m a n).length = n := by simp [slice]

@[simp] theorem slice_zero : slice m a 0 = [] := rfl

theorem slice_congr {m' : Nat → α} (h : ∀ i < n, m (a + i) = m' (b + i)) :
    slice m a n = slice m' b n :=
  List.map_congr_left fun i hi => h i (List.mem_range.1 hi)

theorem slice_add : slice m a (n + k) = slice m a n ++ slice m (a + n) k := by
  simp [slice, List.range_add, Nat.add_assoc]

theorem take_slice (h : k ≤ n) : (slice m a n).take k = slice m a k := by
  obtain ⟨j, rfl⟩ := Nat.exists_eq_add_of_le h
  rw [slice_add, List.take_left' length_slice]

theorem drop_slice (h : k ≤ n) : (slice m a n).drop k = slice m (a + k) (n - k) := by
  obtain ⟨j, rfl⟩ := Nat.exists_eq_add_of_le h
  rw [slice_add, List.drop_left' length_slice, Nat.add_sub_cancel_left]

/-- A slice that ends before the stored cells does not see them. -/
theorem slice_write_below (h : b + n ≤ a) : slice (write m a xs) b n = slice m b n :=
  slice_congr fun i hi => by
    have : ¬ a ≤ b + i := by omega
    simp only [write, if_neg this]

theorem slice_write_self : slice (write m a xs) a xs.length = xs := by
  refine List.ext_getElem length_slice fun i hi hi' => ?_
  simp [slice, write, hi']

theorem slice_write_of_length (h : xs.length = n) : slice (write m a xs) a n = xs :=
  h ▸ slice_write_self

/-- Storing in the same place again. -/
theorem write_write {ys : List α} (h : xs.length ≤ ys.length) :
    write (write m a xs) a ys = write m a ys := by
  funext i
  rw [write, write, write]
  split
  · next hle =>
    rw [List.getD_eq_getElem?_getD, List.getD_eq_getElem?_getD, List.getD_eq_getElem?_getD]
    rcases Nat.lt_or_ge (i - a) ys.length with hlt | hge
    · rw [List.getElem?_eq_getElem hlt, Option.getD_some, Option.getD_some]
    · rw [List.getElem?_eq_none hge, List.getElem?_eq_none (Nat.le_trans h hge)]
      rfl
  · rfl

/-- Storing right behind a slice extends it. -/
theorem slice_write_append : slice (write m n xs) 0 (n + xs.length) = slice m 0 n ++ xs := by
  rw [slice_add, slice_write_below (by omega), Nat.zero_add, slice_write_self]

theorem slice_move : slice (move m a n) 0 n = slice m a n :=
  slice_congr fun i hi => by simp [move, hi]

/-! ## Rings of cells -/

variable {cap j : Nat}

/-- The contents of the `n` cells from `a` on, in a ring of `cap` cells. -/
def ring (m : Nat → α) (cap a n : Nat) : List α := (List.range n).map fun i => m ((a + i) % cap)

/-- `xs` stored in the ring from cell `a` on, in one piece or in two. -/
def ringWrite (m : Nat → α) (cap a : Nat) (xs : List α) : Nat → α :=
  if cap - a % cap < xs.length then
    write (write m (a % cap) (xs.take (cap - a % cap))) 0 (xs.drop (cap - a % cap))
  else write m (a % cap) xs

@[simp] theorem length_ring : (ring m cap a n).length = n := by simp [ring]

theorem ring_congr {m' : Nat → α} (h : ∀ i < n, m ((a + i) % cap) = m' ((b + i) % cap)) :
    ring m cap a n = ring m' cap b n :=
  List.map_congr_left fun i hi => h i (List.mem_range.1 hi)

theorem ring_of_mod_eq (h : a % cap = b % cap) : ring m cap a n = ring m cap b n := by
  apply ring_congr
  intro i _
  rw [Nat.add_mod, h, ← Nat.add_mod]

theorem ring_add : ring m cap a (n + k) = ring m cap a n ++ ring m cap (a + n) k := by
  simp [ring, List.range_add, Nat.add_assoc]

theorem drop_ring (h : k ≤ n) : (ring m cap a n).drop k = ring m cap (a + k) (n - k) := by
  obtain ⟨j, rfl⟩ := Nat.exists_eq_add_of_le h
  rw [ring_add, List.drop_left' length_ring, Nat.add_sub_cancel_left]

/-- Up to the end of the ring its cells lie side by side. -/
theorem ring_eq_slice (h : a % cap + n ≤ cap) : ring m cap a n = slice m (a % cap) n := by
  apply List.map_congr_left
  intro i hi
  have hlt : a % cap + i < cap := by
    have := List.mem_range.1 hi
    omega
  rw [Nat.add_mod, Nat.mod_eq_of_lt (b := cap) (a := i) (by omega), Nat.mod_eq_of_lt hlt]

theorem ringWrite_of_mod_eq (h : a % cap = b % cap) :
    ringWrite m cap a xs = ringWrite m cap b xs := by
  rw [ringWrite, ringWrite, h]

theorem add_mod_ring (hj : j < cap) :
    (a + j) % cap = if a % cap + j < cap then a % cap + j else a % cap + j - cap := by
  have ha : a % cap < cap := Nat.mod_lt a (Nat.zero_lt_of_lt hj)
  rw [Nat.add_mod, Nat.mod_eq_of_lt hj]
  split
  · next h => exact Nat.mod_eq_of_lt h
  · rw [Nat.mod_eq_sub_mod (by omega), Nat.mod_eq_of_lt (by omega)]

/-- What stands in the ring after a write that fits into it. -/
theorem ringWrite_apply (hlen : xs.length ≤ cap) (hj : j < cap) :
    ringWrite m cap a xs ((a + j) % cap) = xs.getD j (m ((a + j) % cap)) := by
  have ha : a % cap < cap := Nat.mod_lt a (Nat.zero_lt_of_lt hj)
  rw [add_mod_ring hj, ringWrite]
  generalize a % cap = w at *
  split
  · next hlt =>
    -- in two pieces
    rw [write, if_pos (Nat.zero_le _), Nat.sub_zero, List.getD_eq_getElem?_getD, List.getElem?_drop]
    split
    · next hwrap =>
      rw [List.getElem?_eq_none (by omega), Option.getD_none, write, if_pos (Nat.le_add_right w j),
        Nat.add_sub_cancel_left, List.getD_eq_getElem?_getD, List.getElem?_take_of_lt (by omega),
        List.getD_eq_getElem?_getD]
    · next hwrap =>
      have hcell : cap - w + (w + j - cap) = j := by omega
      rw [hcell, write, if_neg (by omega), List.getD_eq_getElem?_getD]
  · next hlt =>
    split
    · next hwrap => rw [write, if_pos (Nat.le_add_right w j), Nat.add_sub_cancel_left]
    · next hwrap =>
      rw [write, if_neg (by omega), List.getD_eq_getElem?_getD, List.getElem?_eq_none (by omega),
        Option.getD_none]

theorem ring_ringWrite_self (hlen : xs.length ≤ cap) :
    ring (ringWrite m cap a xs) cap a xs.length = xs := by
  refine List.ext_getElem length_ring fun i hi hi' => ?_
  have hcell := ringWrite_apply (m := m) (a := a) hlen (Nat.lt_of_lt_of_le hi' hlen)
  simpa [ring, hi'] using hcell

/-- Writing behind what stands in the ring leaves it there. -/
theorem ring_ringWrite_behind (hlen : n + xs.length ≤ cap) :
    ring (ringWrite m cap (a + n) xs) cap a n = ring m cap a n := by
  apply ring_congr
  intro i hi
  have hcell : (a + i) % cap = (a + n + (cap - n + i)) % cap := by
    have : a + n + (cap - n + i) = a + i + cap := by omega
    rw [this, Nat.add_mod_right]
  rw [hcell, ringWrite_apply (by omega) (by omega), List.getD_eq_getElem?_getD,
    List.getElem?_eq_none (by omega), Option.getD_none]

/-- Writing behind what stands in the ring extends it. -/
theorem ring_ringWrite_append (hlen : n + xs.length ≤ cap) :
    ring (ringWrite m cap (a + n) xs) cap a (n + xs.length) = ring m cap a n ++ xs := by
  rw [ring_add, ring_ringWrite_behind hlen, ring_ringWrite_self (by omega)]

theorem getElem?_ring {i : Nat} (hi : i < n) : (ring m cap a n)[i]? = some (m ((a + i) % cap)) := by
  simp [ring, hi]

/-- Less than a round apart, two cells of a ring differ. -/
theorem add_mod_ne {i : Nat} (hij : i < j) (hcap : j < i + cap) : (a + i) % cap ≠ (a + j) % cap := by
  intro heq
  have hdvd : cap ∣ a + j - (a + i) :=
    Nat.dvd_of_mod_eq_zero (Nat.sub_mod_eq_zero_of_mod_eq heq.symm)
  have hle := Nat.le_of_dvd (by omega) hdvd
  omega

theorem ring_update_of_ne {v : α} (h : ∀ i < n, (a + i) % cap ≠ k) :
    ring (Function.update m k v) cap a n = ring m cap a n :=
  ring_congr fun i hi => Function.update_of_ne (h i hi) v m

end Memory
