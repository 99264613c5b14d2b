import SNet.Library.Smearing
import SNet.Utils.LoopBuffer

/-!
# The size of a loop buffer

`BufferSize` is computed from the template argument `kMaxSize`. For every `kMaxSize` up to `2 ^ 31`
it is the least power of two that is not below, so masking a counter with it is reducing it
(`bufferSize_spec`).
-/

namespace SNet.Utils

/-- `get_power_of_two(n)` -/
def getPowerOfTwo (n : UInt32) : UInt32 :=
  -- for an `n` that is a power of two itself
  let n := n - 1
  let n := n ||| n >>> 1
  let n := n ||| n >>> 2
  let n := n ||| n >>> 4
  let n := n ||| n >>> 8
  let n := n ||| n >>> 16
  n + 1

/-- The constant `BufferSize`. `kMaxSize` is a `size_t`. -/
def bufferSize (kMaxSize : UInt64) : UInt32 :=
  if kMaxSize &&& (kMaxSize - 1) ≠ 0 then getPowerOfTwo kMaxSize.toUInt32 else kMaxSize.toUInt32

variable {n : UInt32} {kMaxSize : UInt64}

theorem toNat_getPowerOfTwo (hpos : 0 < n.toNat) (hle : n.toNat ≤ 2 ^ 31) :
    (getPowerOfTwo n).toNat = 2 ^ (n.toNat - 1).size := by
  have hsub : (n - 1).toNat = n.toNat - 1 :=
    UInt32.toNat_sub_of_le _ _ (UInt32.le_iff_toNat_le.2 hpos)
  have hlt : n.toNat - 1 < 2 ^ 32 := Nat.lt_of_le_of_lt (Nat.sub_le _ _) n.toNat_lt
  have hsmear := Bits.Smears.one (n := n.toNat - 1) |>.double.double.double.double.double
  have hsucc := hsmear.succ_eq hlt
  have hsize : 2 ^ (n.toNat - 1).size < 2 ^ 32 := by
    have : (n.toNat - 1).size ≤ 31 := Nat.size_le.2 (by omega)
    exact Nat.pow_lt_pow_right Nat.one_lt_two (by omega)
  rw [← hsucc] at hsize ⊢
  rw [getPowerOfTwo]
  simp only [UInt32.toNat_add, UInt32.toNat_or, UInt32.toNat_shiftRight, hsub]
  exact Nat.mod_eq_of_lt hsize

/-- `BufferSize` is the least power of two that is at least `kMaxSize`. -/
theorem isLeast_bufferSize (hpos : 0 < kMaxSize.toNat) (hle : kMaxSize.toNat ≤ 2 ^ 31) :
    IsLeast {p | kMaxSize.toNat ≤ p ∧ Nat.isPowerOfTwo p} (bufferSize kMaxSize).toNat := by
  have hsub : (kMaxSize - 1).toNat = kMaxSize.toNat - 1 :=
    UInt64.toNat_sub_of_le _ _ (UInt64.le_iff_toNat_le.2 hpos)
  have hnat : kMaxSize.toUInt32.toNat = kMaxSize.toNat := by
    rw [UInt64.toNat_toUInt32]
    exact Nat.mod_eq_of_lt (by omega)
  have htest : kMaxSize &&& (kMaxSize - 1) = 0 ↔ kMaxSize.toNat.isPowerOfTwo := by
    rw [← UInt64.toNat_inj, UInt64.toNat_and, hsub]
    exact Nat.and_sub_one_eq_zero_iff_isPowerOfTwo hpos.ne'
  rw [bufferSize]
  split
  · rw [toNat_getPowerOfTwo (by rwa [hnat]) (by rwa [hnat]), hnat]
    have hleast := Bits.isLeast_two_pow_size (n := kMaxSize.toNat - 1)
    refine ⟨⟨?_, _, rfl⟩, fun p hp => hleast.2 ⟨?_, hp.2⟩⟩
    · exact Nat.le_of_pred_lt hleast.1.1
    · exact Nat.lt_of_lt_of_le (Nat.sub_one_lt hpos.ne') hp.1
  · next hpow =>
    rw [hnat]
    exact ⟨⟨le_rfl, htest.1 (not_not.1 hpow)⟩, fun p hp => hp.1⟩

/-- The buffers of `LoopBuffer<kMaxSize>`. -/
def BufferSize.ofMax (kMaxSize : UInt64) (hpos : 0 < kMaxSize.toNat)
    (hle : kMaxSize.toNat ≤ 2 ^ 31) : BufferSize :=
  ⟨bufferSize kMaxSize, (isLeast_bufferSize hpos hle).1.2⟩

/-- A counter that was moved on by `n` in all, around the end of its range or not, is found at the
position that `n` leads to. -/
theorem BufferSize.toNat_advance_and_mask {S : BufferSize} {c : UInt32} {n : Nat} :
    ((c + UInt32.ofNat n) &&& (S.val - 1)).toNat = (c.toNat + n) % S.cap := by
  rw [S.toNat_and_mask, S.toNat_add_mod, UInt32.toNat_ofNat', Nat.add_mod,
    Nat.mod_mod_of_dvd _ S.cap_dvd, ← Nat.add_mod]

/-- **Buffer sizing.** `BufferSize` is the least power of two that is at least `kMaxSize`, and
masking with one less is reducing, also of a counter that overflows. -/
theorem bufferSize_spec (hpos : 0 < kMaxSize.toNat) (hle : kMaxSize.toNat ≤ 2 ^ 31) :
    IsLeast {p | kMaxSize.toNat ≤ p ∧ Nat.isPowerOfTwo p} (bufferSize kMaxSize).toNat ∧
      (∀ c : UInt32,
        (c &&& (bufferSize kMaxSize - 1)).toNat = c.toNat % (bufferSize kMaxSize).toNat) ∧
      ∀ (c : UInt32) (n : Nat), ((c + UInt32.ofNat n) &&& (bufferSize kMaxSize - 1)).toNat =
        (c.toNat + n) % (bufferSize kMaxSize).toNat := by
  refine ⟨isLeast_bufferSize hpos hle, fun c => ?_, fun c n => ?_⟩
  · exact (BufferSize.ofMax kMaxSize hpos hle).toNat_and_mask
  · exact (BufferSize.ofMax kMaxSize hpos hle).toNat_advance_and_mask

theorem bufferSize_spec_five_thousand :
    IsLeast {p | (5000 : UInt64).toNat ≤ p ∧ Nat.isPowerOfTwo p} (bufferSize 5000).toNat ∧
      (∀ c : UInt32, (c &&& (bufferSize 5000 - 1)).toNat = c.toNat % (bufferSize 5000).toNat) ∧
      ∀ (c : UInt32) (n : Nat), ((c + UInt32.ofNat n) &&& (bufferSize 5000 - 1)).toNat =
        (c.toNat + n) % (bufferSize 5000).toNat :=
  bufferSize_spec (by decide) (by decide)

end SNet.Utils
