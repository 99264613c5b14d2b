import Mathlib.Algebra.Ring.Nat
import Mathlib.Data.List.Basic
import Mathlib.Tactic.Common

/-!
# Numbers as bytes

The bytes in which a machine stores an unsigned number of fixed width, in either byte order, and the
number that stands in a list of bytes; the bytes of a text.
-/

/-- The characters of an ASCII text. -/
def ascii (s : String) : List UInt8 := s.toList.map fun c => UInt8.ofNat c.toNat

/-- A property that holds of all 256 bytes. -/
theorem forall_byte {P : UInt8 → Prop} (h : ∀ n < 256, P (UInt8.ofNat n)) (c : UInt8) : P c := by
  have hc := h c.toNat c.toNat_lt
  rwa [UInt8.ofNat_toNat] at hc

inductive ByteOrder
  | little
  | big
  deriving DecidableEq, Repr

namespace ByteOrder

/-- The `k` lowest bytes of `n`, the lowest first. -/
def leBytes : (k n : Nat) → List UInt8
  | 0, _ => []
  | k + 1, n => UInt8.ofNat n :: leBytes k (n / 256)

def leValue : List UInt8 → Nat
  | [] => 0
  | b :: bs => b.toNat + 256 * leValue bs

/-- The `k` bytes of an unsigned number. -/
def toBytes (o : ByteOrder) (k n : Nat) : List UInt8 :=
  match o with
  | little => leBytes k n
  | big => (leBytes k n).reverse

def ofBytes (o : ByteOrder) (bs : List UInt8) : Nat :=
  match o with
  | little => leValue bs
  | big => leValue bs.reverse

variable {o : ByteOrder} {k n : Nat}

@[simp] theorem length_leBytes : (leBytes k n).length = k := by
  induction k generalizing n with
  | zero => rfl
  | succ k ih => rw [leBytes, List.length_cons, ih]

theorem leValue_leBytes (h : n < 256 ^ k) : leValue (leBytes k n) = n := by
  induction k generalizing n with
  | zero =>
    rw [Nat.pow_zero] at h
    rw [leBytes, leValue]
    omega
  | succ k ih =>
    have hdiv : n / 256 < 256 ^ k := by
      rw [Nat.div_lt_iff_lt_mul (by decide)]
      rwa [Nat.pow_succ] at h
    rw [leBytes, leValue, ih hdiv, UInt8.toNat_ofNat']
    exact Nat.mod_add_div n 256

@[simp] theorem length_toBytes : (o.toBytes k n).length = k := by
  cases o with
  | little => exact length_leBytes
  | big => rw [toBytes, List.length_reverse, length_leBytes]

theorem ofBytes_toBytes (h : n < 256 ^ k) : o.ofBytes (o.toBytes k n) = n := by
  cases o with
  | little => exact leValue_leBytes h
  | big => rw [toBytes, ofBytes, List.reverse_reverse, leValue_leBytes h]

end ByteOrder
