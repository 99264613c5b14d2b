import Mathlib.Data.List.Induction
import Mathlib.Data.List.TakeWhile
import SNet.Http.UrlText
import SNet.Library.Scan

/-!
# Numerals in a url

`is_uint` reads the longest numeral at the front of a range and compares its value, which it has
only modulo 2^32, with a maximum. It is right about every numeral that the wrap does not bring back
below the maximum (`uintRight_iff`).
-/

namespace SNet.Http.Url

open Text

/-- The longest numeral at the front: a single zero, or digits of which the first is none. -/
def numeral : List UInt8 → List UInt8
  | [] => []
  | c :: t => if !isDigit c then [] else if c = 48 then [c] else c :: t.takeWhile isDigit

/-- The value is above the maximum, and so that its 32 lowest bits are not. -/
def Wraps (n max : Nat) : Prop := ∃ k, 0 < k ∧ k * 2 ^ 32 ≤ n ∧ n ≤ k * 2 ^ 32 + max

variable {s t : List UInt8} {c : UInt8} {n : Nat} {max : UInt32}

theorem wraps_iff (hmax : n < 2 ^ 32) {v : Nat} : Wraps v n ↔ n < v ∧ v % 2 ^ 32 ≤ n := by
  constructor
  · rintro ⟨k, hk, hle, hge⟩
    obtain ⟨d, rfl⟩ := Nat.exists_eq_add_of_le hle
    have hd : d ≤ n := Nat.le_of_add_le_add_left hge
    rw [Nat.add_comm, Nat.add_mul_mod_self_right, Nat.mod_eq_of_lt (Nat.lt_of_le_of_lt hd hmax)]
    exact ⟨by omega, hd⟩
  · rintro ⟨hlt, hmod⟩
    refine ⟨v / 2 ^ 32, ?_, Nat.div_mul_le_self v _, ?_⟩
    · apply Nat.div_pos _ (Nat.two_pow_pos 32)
      apply Nat.le_of_not_lt
      intro hsmall
      rw [Nat.mod_eq_of_lt hsmall] at hmod
      exact absurd hlt (Nat.not_lt_of_le hmod)
    · have := Nat.div_add_mod' v (2 ^ 32)
      omega

theorem toUInt32_digit (h : isDigit c) : (c - 48).toUInt32 = UInt32.ofNat (c.toNat - 48) := by
  rw [isDigit, Bool.and_eq_true, decide_eq_true_eq] at h
  rw [← UInt32.ofNat_uInt8ToNat, UInt8.toNat_sub_of_le _ _ h.1]
  rfl

/-- The loop computes modulo 2^32. -/
theorem accumulate_ofNat : accumulate (UInt32.ofNat n) t =
    (UInt32.ofNat ((t.takeWhile isDigit).foldl (fun n d => 10 * n + (d.toNat - 48)) n),
      t.dropWhile isDigit) := by
  induction t generalizing n with
  | nil => rfl
  | cons c t ih =>
    rw [accumulate, isNum]
    cases hc : isDigit c with
    | false =>
      rw [if_neg Bool.false_ne_true, List.takeWhile_cons_of_neg (by simp [hc]),
        List.dropWhile_cons_of_neg (by simp [hc])]
      rfl
    | true =>
      have hstep : UInt32.ofNat n * 10 + (c - 48).toUInt32 =
          UInt32.ofNat (10 * n + (c.toNat - 48)) := by
        rw [toUInt32_digit hc, UInt32.ofNat_add, UInt32.ofNat_mul, UInt32.mul_comm]
        rfl
      rw [if_pos rfl, hstep, ih, List.takeWhile_cons_of_pos hc, List.dropWhile_cons_of_pos hc,
        List.foldl_cons]

theorem toUInt32_digit_ne_zero (h : isDigit c) (hne : c ≠ 48) : (c - 48).toUInt32 ≠ 0 := by
  rw [isDigit, Bool.and_eq_true, decide_eq_true_eq] at h
  intro hzero
  rw [← UInt32.toNat_inj, UInt8.toNat_toUInt32, UInt8.toNat_sub_of_le _ _ h.1] at hzero
  exact hne (UInt8.le_antisymm (Nat.le_of_sub_eq_zero hzero) h.1)

/-- What is left behind the numeral. The maximum is compared with the value modulo 2^32. -/
theorem isUint_eq : isUint s max =
    if numeral s ≠ [] ∧ decimal (numeral s) % 2 ^ 32 ≤ max.toNat then
      some (s.drop (numeral s).length)
    else none := by
  have hlt : ∀ {v : Nat}, max < UInt32.ofNat v ↔ ¬ v % 2 ^ 32 ≤ max.toNat := by
    intro v
    rw [UInt32.lt_iff_toNat_lt, UInt32.toNat_ofNat', Nat.not_le]
  cases s with
  | nil => rfl
  | cons c t =>
    rw [isUint, numeral, isNum]
    cases hc : isDigit c with
    | false => rfl
    | true =>
      have hval := toUInt32_digit hc
      by_cases hzero : c = 48
      · have hle : ¬ max < 0 := UInt32.not_lt.2 UInt32.zero_le
        subst hzero
        simp [hle, decimal]
      · have hacc : accumulate (c - 48).toUInt32 t =
            (UInt32.ofNat (decimal (c :: t.takeWhile isDigit)), t.dropWhile isDigit) := by
          rw [hval, accumulate_ofNat, decimal, List.foldl_cons, Nat.mul_zero, Nat.zero_add]
        rw [Bool.not_true, if_neg Bool.false_ne_true, if_neg Bool.false_ne_true, if_neg hzero]
        dsimp only
        rw [if_pos (toUInt32_digit_ne_zero hc hzero), hacc, List.length_cons, List.drop_succ_cons,
          Scan.drop_length_takeWhile]
        simp only [hlt, ite_not, ne_eq, List.cons_ne_nil, not_false_eq_true, true_and]

/-- `is_uint` is right about a range: it succeeds with the numeral behind it exactly when there is
one and its value is at most the maximum. -/
def UintRight (s : List UInt8) (max : UInt32) : Prop :=
  isUint s max = if numeral s ≠ [] ∧ decimal (numeral s) ≤ max.toNat then
    some (s.drop (numeral s).length)
  else none

theorem uintRight_iff : UintRight s max ↔ ¬ Wraps (decimal (numeral s)) max.toNat := by
  rw [UintRight, isUint_eq, wraps_iff max.toNat_lt]
  by_cases hle : decimal (numeral s) ≤ max.toNat
  · have hmod := Nat.le_trans (Nat.mod_le (decimal (numeral s)) (2 ^ 32)) hle
    rw [if_congr (and_congr_right fun _ => iff_of_true hmod hle) rfl rfl]
    exact iff_of_true rfl (fun h => absurd hle (Nat.not_le.2 h.1))
  · have hne : numeral s ≠ [] := by
      intro hnil
      rw [hnil] at hle
      exact hle (Nat.zero_le _)
    have hno : ¬ (numeral s ≠ [] ∧ decimal (numeral s) ≤ max.toNat) := fun h => hle h.2
    rw [if_neg hno, ite_eq_right_iff, and_iff_right (Nat.lt_of_not_le hle)]
    constructor
    · intro h hmod
      cases h ⟨hne, hmod⟩
    · intro h hmod
      exact absurd hmod.2 h

/-- A decimal numeral without leading zeros. -/
def IsNumeral (s : List UInt8) : Prop := s ≠ [] ∧ numeral s = s

theorem numeral_prefix : numeral s <+: s := by
  cases s with
  | nil => exact List.prefix_refl _
  | cons c t =>
    rw [numeral]
    split
    · exact List.nil_prefix
    · split
      · exact List.prefix_append [c] t
      · exact List.cons_prefix_cons.2 ⟨rfl, List.takeWhile_prefix _⟩

theorem isNumeral_cons : IsNumeral (c :: t) ↔
    isDigit c ∧ (c = 48 → t = []) ∧ ∀ d ∈ t, isDigit d := by
  rw [IsNumeral, and_iff_right (List.cons_ne_nil c t), numeral]
  cases hc : isDigit c with
  | false => simp
  | true =>
    by_cases hzero : c = 48
    · subst hzero
      simp
      intro h
      simp [h]
    · simp [hzero, List.takeWhile_eq_self_iff]

/-- A digit behind a numeral makes another one, unless that is zero. -/
theorem isNumeral_append_singleton {d : UInt8} (hne : s ≠ []) :
    IsNumeral (s ++ [d]) ↔ IsNumeral s ∧ s ≠ [48] ∧ isDigit d := by
  cases s with
  | nil => exact absurd rfl hne
  | cons c t =>
    have hne48 : c :: t ≠ [48] ↔ (c = 48 → t ≠ []) := by
      rw [ne_eq, List.cons.injEq, not_and]
    rw [List.cons_append, isNumeral_cons, isNumeral_cons, hne48]
    constructor
    · rintro ⟨hc, hzero, hall⟩
      have hc48 : c ≠ 48 := fun h =>
        List.append_ne_nil_of_right_ne_nil t (List.cons_ne_nil d []) (hzero h)
      refine ⟨⟨hc, fun h => absurd h hc48, fun e he => hall e (List.mem_append_left _ he)⟩,
        fun h => absurd h hc48, ?_⟩
      exact hall d (List.mem_append_right _ (List.mem_singleton.2 rfl))
    · rintro ⟨⟨hc, hzero, hall⟩, hfirst, hd⟩
      refine ⟨hc, fun h => absurd (hzero h) (hfirst h), fun e he => ?_⟩
      cases List.mem_append.1 he with
      | inl he => exact hall e he
      | inr he => rwa [List.mem_singleton.1 he]

theorem decimal_append_singleton {d : UInt8} :
    decimal (s ++ [d]) = 10 * decimal s + (d.toNat - 48) := by
  rw [decimal, List.foldl_append]
  rfl

theorem digit_value (h : isDigit c) :
    c.toNat - 48 < 10 ∧ UInt8.ofNat (48 + (c.toNat - 48)) = c := by
  rw [isDigit, Bool.and_eq_true, decide_eq_true_eq, decide_eq_true_eq, UInt8.le_iff_toNat_le,
    UInt8.le_iff_toNat_le] at h
  have hle : 48 ≤ c.toNat ∧ c.toNat ≤ 57 := h
  rw [Nat.add_sub_cancel' hle.1, UInt8.ofNat_toNat]
  exact ⟨by omega, rfl⟩

theorem toString_of_lt_ten (h : n < 10) : ascii (toString n) = [UInt8.ofNat (48 + n)] := by
  rw [ascii_toString, Nat.toDigits_of_lt_base h, List.map_singleton,
    Nat.toNat_digitChar_of_lt_ten h]

theorem toString_step {m : Nat} (hpos : 0 < n) (hm : m < 10) :
    ascii (toString (10 * n + m)) = ascii (toString n) ++ [UInt8.ofNat (48 + m)] := by
  rw [ascii_toString, ← Nat.toDigits_append_toDigits (by decide) hpos hm, List.map_append,
    ← ascii_toString, ← ascii_toString, toString_of_lt_ten hm]

theorem isNumeral_toString (n : Nat) : IsNumeral (ascii (toString n)) := by
  induction n using Nat.strong_induction_on with
  | _ n ih =>
    by_cases hlt : n < 10
    · rw [toString_of_lt_ten hlt, isNumeral_cons]
      refine ⟨?_, fun _ => rfl, fun d hd => absurd hd List.not_mem_nil⟩
      have := isDigit_toString n
      rw [toString_of_lt_ten hlt] at this
      exact this _ List.mem_cons_self
    · have hpos : 0 < n / 10 := by omega
      have hstep := toString_step hpos (Nat.mod_lt n (by decide))
      rw [Nat.div_add_mod] at hstep
      have hd := isDigit_toString n
      rw [hstep] at hd ⊢
      refine (isNumeral_append_singleton (toString_ne_nil _)).2 ⟨ih _ (by omega), ?_, ?_⟩
      · intro h
        have := decimal_toString (n / 10)
        rw [h] at this
        exact absurd this.symm hpos.ne'
      · exact hd _ (List.mem_append_right _ List.mem_cons_self)

/-- A numeral is what `toString` writes for its value. -/
theorem IsNumeral.eq_toString (h : IsNumeral s) : s = ascii (toString (decimal s)) := by
  induction s using List.reverseRecOn with
  | nil => exact absurd rfl h.1
  | append_singleton t d ih =>
    by_cases hnil : t = []
    · subst hnil
      obtain ⟨hlt, hd⟩ := digit_value (isNumeral_cons.1 h).1
      have hval : decimal [d] = d.toNat - 48 := by
        rw [decimal, List.foldl_cons, List.foldl_nil, Nat.mul_zero, Nat.zero_add]
      rw [List.nil_append, hval, toString_of_lt_ten hlt, hd]
    · obtain ⟨ht, hzero, hdigit⟩ := (isNumeral_append_singleton hnil).1 h
      obtain ⟨hlt, hd⟩ := digit_value hdigit
      have hpos : 0 < decimal t := by
        apply Nat.pos_of_ne_zero
        intro hz
        have heq := ih ht
        rw [hz, toString_of_lt_ten (by decide)] at heq
        exact hzero heq
      rw [decimal_append_singleton, toString_step hpos hlt, hd, ← ih ht]

theorem IsNumeral.isDigit (h : IsNumeral s) : ∀ d ∈ s, isDigit d = true := by
  rw [h.eq_toString]
  exact isDigit_toString _

/-- The numerals that `is_port` accepts: those whose value is at most 65535 modulo 2^32. -/
theorem isPort_iff : isPort s = true ↔ IsNumeral s ∧ decimal s % 2 ^ 32 ≤ 65535 := by
  have hall : s.drop (numeral s).length = [] ↔ numeral s = s := by
    rw [List.drop_eq_nil_iff]
    constructor
    · exact numeral_prefix.eq_of_length_le
    · intro h
      rw [h]
  rw [isPort, beq_iff_eq, isUint_eq, Option.ite_none_right_eq_some, Option.some_inj, hall, IsNumeral]
  constructor
  · rintro ⟨⟨hne, hmod⟩, heq⟩
    rw [heq] at hne hmod
    exact ⟨⟨hne, heq⟩, hmod⟩
  · rintro ⟨⟨hne, heq⟩, hmod⟩
    rw [heq]
    exact ⟨⟨hne, hmod⟩, rfl⟩

/-- `is_port` is right about a text: it accepts the numbers up to 65535, written without leading
zeros, and nothing else. -/
def PortRight (s : List UInt8) : Prop :=
  isPort s = true ↔ ∃ n ≤ 65535, s = ascii (toString n)

theorem portRight_iff : PortRight s ↔ ¬ (IsNumeral s ∧ Wraps (decimal s) 65535) := by
  have hspec : (∃ n ≤ 65535, s = ascii (toString n)) ↔ IsNumeral s ∧ decimal s ≤ 65535 := by
    constructor
    · rintro ⟨n, hn, rfl⟩
      rw [decimal_toString]
      exact ⟨isNumeral_toString n, hn⟩
    · rintro ⟨h, hle⟩
      exact ⟨_, hle, h.eq_toString⟩
  have hmod := Nat.mod_le (decimal s) (2 ^ 32)
  rw [PortRight, hspec, isPort_iff, wraps_iff (by decide)]
  by_cases h : IsNumeral s
  · simp only [h, true_and]
    omega
  · simp only [h, false_and, not_false_eq_true]

end SNet.Http.Url
