import Mathlib.Algebra.Ring.Nat
import Mathlib.Data.Nat.Size
import Mathlib.Order.Bounds.Basic

/-!
# Smearing the bits of a number

`m` smears `n` over `w` places when a bit of `m` is set exactly where one of the `w` bits of `n` from
there on is. Each `m ||| m >>> w` doubles the places (`Smears.double`), and over as many places as
`n` has bits the result is one below a power of two (`Smears.succ_eq`), the least one above `n`
(`isLeast_two_pow_size`).
-/

namespace Bits

variable {n m w : Nat}

def Smears (w n m : Nat) : Prop := ∀ i, m.testBit i = true ↔ ∃ j < w, n.testBit (i + j) = true

theorem Smears.one : Smears 1 n n := by
  intro i
  constructor
  · intro h
    exact ⟨0, Nat.zero_lt_one, h⟩
  · rintro ⟨j, hj, h⟩
    rwa [Nat.lt_one_iff.1 hj] at h

theorem Smears.double (h : Smears w n m) : Smears (w + w) n (m ||| m >>> w) := by
  intro i
  rw [Nat.testBit_or, Nat.testBit_shiftRight, Bool.or_eq_true, h, h]
  constructor
  · rintro (⟨j, hj, hbit⟩ | ⟨j, hj, hbit⟩)
    · exact ⟨j, Nat.lt_add_right w hj, hbit⟩
    · refine ⟨w + j, Nat.add_lt_add_left hj w, ?_⟩
      rwa [← Nat.add_assoc, Nat.add_comm i w]
  · rintro ⟨j, hj, hbit⟩
    cases Nat.lt_or_ge j w with
    | inl hlt => exact Or.inl ⟨j, hlt, hbit⟩
    | inr hge =>
      obtain ⟨d, rfl⟩ := Nat.exists_eq_add_of_le hge
      refine Or.inr ⟨d, Nat.lt_of_add_lt_add_left hj, ?_⟩
      rwa [Nat.add_comm w i, Nat.add_assoc]

/-- There is a bit from place `i` on exactly in front of the size. -/
theorem exists_testBit_iff (hn : n < 2 ^ w) {i : Nat} :
    (∃ j < w, n.testBit (i + j) = true) ↔ i < n.size := by
  rw [Nat.lt_size]
  constructor
  · rintro ⟨j, -, hbit⟩
    exact Nat.le_trans (Nat.pow_le_pow_right Nat.two_pos (Nat.le_add_right i j))
      (Nat.ge_two_pow_of_testBit hbit)
  · intro hle
    obtain ⟨k, hk, hbit⟩ := Nat.exists_ge_and_testBit_of_ge_two_pow hle
    obtain ⟨j, rfl⟩ := Nat.exists_eq_add_of_le hk
    refine ⟨j, ?_, hbit⟩
    have hlt := Nat.lt_of_le_of_lt (Nat.ge_two_pow_of_testBit hbit) hn
    exact Nat.lt_of_le_of_lt (Nat.le_add_left j i) ((Nat.pow_lt_pow_iff_right Nat.one_lt_two).1 hlt)

theorem Smears.eq_two_pow_sub_one (h : Smears w n m) (hn : n < 2 ^ w) : m = 2 ^ n.size - 1 := by
  apply Nat.eq_of_testBit_eq
  intro i
  rw [Nat.testBit_two_pow_sub_one, Bool.eq_iff_iff, decide_eq_true_iff, h i, exists_testBit_iff hn]

theorem Smears.succ_eq (h : Smears w n m) (hn : n < 2 ^ w) : m + 1 = 2 ^ n.size := by
  rw [h.eq_two_pow_sub_one hn]
  exact Nat.sub_add_cancel Nat.one_le_two_pow

theorem isLeast_two_pow_size : IsLeast {p | n < p ∧ ∃ k, p = 2 ^ k} (2 ^ n.size) := by
  refine ⟨⟨Nat.lt_size_self n, n.size, rfl⟩, ?_⟩
  rintro _ ⟨hlt, k, rfl⟩
  exact Nat.pow_le_pow_right Nat.two_pos (Nat.size_le.2 hlt)

end Bits
