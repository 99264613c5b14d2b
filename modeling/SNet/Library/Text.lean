import Mathlib.Data.List.TakeWhile
import SNet.Library.Bytes

/-!
# Searching a text, reading a number

`find` is the first place of a text where a pattern stands; a text that ends its prefix with the
pattern for the first time does so whatever follows (`find_append`). `stoi` reads a decimal number
with blanks and a sign in front of it and anything behind it; what `toString` writes it reads back
(`decimal_toString`, `stoi_of_digits`).
-/

namespace Text

/-! ## Patterns -/

section Find

variable {α : Type*} [DecidableEq α] {pat l r : List α} {c : α} {n : Nat}

/-- The first place where the pattern stands. -/
def find (pat : List α) : List α → Option Nat
  | [] => bif pat.isEmpty then some 0 else none
  | c :: cs => bif pat.isPrefixOf (c :: cs) then some 0 else (find pat cs).map (· + 1)

theorem find_front (h : pat <+: l) : find pat l = some 0 := by
  cases l with
  | nil => rw [find, List.prefix_nil.1 h, List.isEmpty_nil, cond_true]
  | cons c l => rw [find, List.isPrefixOf_iff_prefix.2 h, cond_true]

theorem find_cons (h : ¬ pat <+: c :: l) : find pat (c :: l) = (find pat l).map (· + 1) := by
  rw [find, Bool.eq_false_iff.2 (fun hp => h (List.isPrefixOf_iff_prefix.1 hp)), cond_false]

/-- What stands in front of the found place, and there. -/
theorem eq_append_of_find (h : find pat l = some n) :
    ∃ r, l = l.take n ++ pat ++ r ∧ n ≤ l.length := by
  induction l generalizing n with
  | nil =>
    cases pat with
    | nil => exact ⟨[], by simp_all [find]⟩
    | cons c pat => cases h
  | cons c l ih =>
    by_cases hp : pat <+: c :: l
    · rw [find_front hp] at h
      obtain ⟨r, hr⟩ := hp
      cases h
      exact ⟨r, hr.symm, Nat.zero_le _⟩
    · rw [find_cons hp] at h
      obtain ⟨m, hm, rfl⟩ := Option.map_eq_some_iff.1 h
      obtain ⟨r, hr, hle⟩ := ih hm
      refine ⟨r, ?_, Nat.succ_le_succ hle⟩
      rw [List.take_succ_cons, List.cons_append, List.cons_append, ← hr]

/-- Where a pattern is found for the first time does not depend on what follows it. -/
theorem find_append : find pat (l ++ pat ++ r) = some l.length ↔
    find pat (l ++ pat) = some l.length := by
  induction l with
  | nil =>
    rw [List.nil_append, find_front (List.prefix_append pat r), find_front (List.prefix_refl _)]
  | cons c l ih =>
    have hp : pat <+: c :: l ++ pat ++ r ↔ pat <+: c :: l ++ pat :=
      ⟨fun h => List.prefix_of_prefix_length_le h (List.prefix_append _ r)
        (by rw [List.length_append]; omega),
        fun h => h.trans (List.prefix_append _ r)⟩
    by_cases h : pat <+: c :: l ++ pat
    · rw [find_front h, find_front (hp.2 h)]
    · have h' := fun hr => h (hp.1 hr)
      rw [List.cons_append, List.cons_append] at h'
      rw [List.cons_append] at h
      rw [List.cons_append, List.cons_append, find_cons h', find_cons h, List.length_cons]
      simpa using ih

/-- A prefix that ends at the found place does so with anything behind it. -/
theorem find_take (h : find pat l = some n) :
    find pat (l.take n ++ pat) = some (l.take n).length := by
  obtain ⟨r, hr, hle⟩ := eq_append_of_find h
  rw [← find_append (r := r), ← hr, h, List.length_take, Nat.min_eq_left hle]

theorem find_of_not_mem (h : c ∉ l) : find (c :: pat) l = none := by
  induction l with
  | nil => rfl
  | cons d l ih =>
    rw [List.mem_cons, not_or] at h
    rw [find_cons (fun hp => h.1 (List.cons_prefix_cons.1 hp).1), ih h.2]
    rfl

theorem find_append_of_not_mem (h : c ∉ l) :
    find (c :: pat) (l ++ c :: pat) = some l.length := by
  induction l with
  | nil => exact find_front (List.prefix_refl _)
  | cons d l ih =>
    rw [List.mem_cons, not_or] at h
    rw [List.cons_append, find_cons (fun hp => h.1 (List.cons_prefix_cons.1 hp).1), ih h.2]
    rfl

theorem not_mem_of_find (h : find [c] l = some n) : c ∉ l.take n := by
  induction l generalizing n with
  | nil => simp
  | cons d l ih =>
    by_cases hp : [c] <+: d :: l
    · rw [find_front hp] at h
      cases h
      simp
    · rw [find_cons hp] at h
      obtain ⟨m, hm, rfl⟩ := Option.map_eq_some_iff.1 h
      have hne : c ≠ d := fun e => hp (e ▸ List.cons_prefix_cons.2 ⟨rfl, List.nil_prefix⟩)
      rw [List.take_succ_cons, List.mem_cons, not_or]
      exact ⟨hne, ih hm⟩

theorem find_eq_none : find [c] l = none ↔ c ∉ l := by
  constructor
  · intro h hc
    obtain ⟨s, t, rfl, hs⟩ := List.eq_append_cons_of_mem hc
    have hfound : find [c] (s ++ [c] ++ t) = some s.length :=
      find_append.2 (find_append_of_not_mem hs)
    rw [List.append_assoc, List.singleton_append, h] at hfound
    cases hfound
  · exact find_of_not_mem

end Find

/-! ## Numbers -/

def isSpace (c : UInt8) : Bool := c == 32 || 9 ≤ c && c ≤ 13

def isDigit (c : UInt8) : Bool := 48 ≤ c && c ≤ 57

/-- The number that decimal digits write. -/
def decimal (ds : List UInt8) : Nat := ds.foldl (fun n d => 10 * n + (d.toNat - 48)) 0

inductive StoiError
  | invalidArgument
  | outOfRange
  deriving DecidableEq, Repr

/-- The sign in front of a number, and what follows it. -/
def sign : List UInt8 → Int × List UInt8
  | 43 :: cs => (1, cs)
  | 45 :: cs => (-1, cs)
  | cs => (1, cs)

/-- The 32-bit number at the front of a text. -/
def stoi (text : List UInt8) : Except StoiError Int :=
  let (s, cs) := sign (text.dropWhile isSpace)
  let ds := cs.takeWhile isDigit
  if ds = [] then .error .invalidArgument
  else
    let n := s * decimal ds
    if -2147483648 ≤ n ∧ n ≤ 2147483647 then .ok n else .error .outOfRange

theorem sign_of_digit {d : UInt8} {ds : List UInt8} (h : isDigit d) :
    sign (d :: ds) = (1, d :: ds) := by
  rw [sign]
  · intro cs hcs
    cases hcs
    cases h
  · intro cs hcs
    cases hcs
    cases h

/-- Digits are read as their number, or are out of range. -/
theorem stoi_digits {ds : List UInt8} (hne : ds ≠ []) (hd : ∀ d ∈ ds, isDigit d) :
    stoi ds = if decimal ds < 2 ^ 31 then .ok (decimal ds : Int) else .error .outOfRange := by
  cases ds with
  | nil => exact absurd rfl hne
  | cons d ds =>
    have hdigit : isDigit d := hd d List.mem_cons_self
    have hspace : isSpace d = false := by
      simp only [isDigit, isSpace, Bool.and_eq_true, decide_eq_true_eq, UInt8.le_iff_toNat_le,
        ← UInt8.toNat_inj, Bool.or_eq_false_iff, beq_eq_false_iff_ne, ne_eq, Bool.and_eq_false_iff,
        decide_eq_false_iff_not] at hdigit ⊢
      simp at hdigit ⊢
      omega
    have hdrop : (d :: ds).dropWhile isSpace = d :: ds := by
      rw [List.dropWhile_cons_of_neg (by rw [hspace]; exact Bool.false_ne_true)]
    have htake : (d :: ds).takeWhile isDigit = d :: ds := List.takeWhile_eq_self_iff.2 hd
    rw [stoi, hdrop, sign_of_digit hdigit]
    simp only [htake, if_neg hne, Int.one_mul]
    apply if_congr _ rfl rfl
    omega

theorem stoi_of_digits {ds : List UInt8} (hne : ds ≠ []) (hd : ∀ d ∈ ds, isDigit d)
    (hlt : decimal ds < 2 ^ 31) : stoi ds = .ok (decimal ds) := by
  rw [stoi_digits hne hd, if_pos hlt]

theorem toNat_of_isDigit {c : Char} (h : c.isDigit) : (UInt8.ofNat c.toNat).toNat = c.toNat := by
  have hc := Char.isDigit_iff_toNat.1 h
  simp only [Char.reduceToNat] at hc
  rw [UInt8.toNat_ofNat', Nat.mod_eq_of_lt (by omega)]

theorem isDigit_ascii {c : Char} (h : c.isDigit) : isDigit (UInt8.ofNat c.toNat) := by
  have hc := Char.isDigit_iff_toNat.1 h
  simp only [Char.reduceToNat] at hc
  rw [isDigit, Bool.and_eq_true, decide_eq_true_eq, decide_eq_true_eq, UInt8.le_iff_toNat_le,
    UInt8.le_iff_toNat_le, toNat_of_isDigit h]
  exact hc

theorem foldl_digits {cs : List Char} (h : ∀ c ∈ cs, c.isDigit) (init : Nat) :
    (cs.map fun c => UInt8.ofNat c.toNat).foldl (fun n d => 10 * n + (d.toNat - 48)) init =
      Nat.ofDigitChars 10 cs init := by
  induction cs generalizing init with
  | nil => rw [List.map_nil, List.foldl_nil, Nat.ofDigitChars_nil]
  | cons c cs ih =>
    rw [List.map_cons, List.foldl_cons, ih (fun d hd => h d (List.mem_cons_of_mem _ hd)),
      Nat.ofDigitChars_cons, toNat_of_isDigit (h c List.mem_cons_self)]
    rfl

theorem ascii_toString (n : Nat) :
    ascii (toString n) = (Nat.toDigits 10 n).map fun c => UInt8.ofNat c.toNat := by
  rw [ascii, Nat.toString_eq_repr, Nat.toList_repr]

theorem isDigit_of_mem {n : Nat} : ∀ c ∈ Nat.toDigits 10 n, c.isDigit :=
  fun _ hc => Nat.isDigit_of_mem_toDigits (by decide) (by decide) hc

@[simp] theorem decimal_toString (n : Nat) : decimal (ascii (toString n)) = n := by
  rw [decimal, ascii_toString, foldl_digits isDigit_of_mem, Nat.ofDigitChars_ten_toDigits]

theorem isDigit_toString (n : Nat) : ∀ d ∈ ascii (toString n), isDigit d := by
  intro d hd
  rw [ascii_toString] at hd
  obtain ⟨c, hc, rfl⟩ := List.mem_map.1 hd
  exact isDigit_ascii (isDigit_of_mem c hc)

theorem toString_ne_nil (n : Nat) : ascii (toString n) ≠ [] := by
  rw [ascii_toString, ne_eq, List.map_eq_nil_iff]
  exact Nat.toDigits_ne_nil

end Text
