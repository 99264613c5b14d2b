import Mathlib.Data.List.Basic
import Mathlib.Tactic.Common

/-!
# Length-announcing framing of a stream

A stream is a sequence of packages, each of which begins with a header of fixed size that announces
the length of the whole package. `unframe` cuts the complete packages off the front of what has
been received and returns the rest.

* `unframe_append`: cutting can stop at any point of the stream and be taken up again with the rest,
  so a receiver that keeps the rest between its reads (`decode`) delivers the same packages however
  the stream is split (`decode_eq`).
* `unframe_genuine`: the packages that announce their own lengths come out as they went in.
-/

/-- How packages announce their lengths: the size of the header, the largest length that is
accepted, and the length announced by a header. -/
structure Framing (α : Type*) where
  header : Nat
  limit : Nat
  announce : List α → Int

namespace Framing

variable {α : Type*} {F : Framing α} {p w x y : List α} {n : Nat}

/-- The length of the first package of `w`, if all of it is there. -/
def first (F : Framing α) (w : List α) : Option Nat :=
  let n := F.announce (w.take F.header)
  if F.header ≤ w.length ∧ 0 < n ∧ n ≤ F.limit ∧ n ≤ w.length then some n.toNat else none

theorem first_eq_some : F.first w = some n ↔
    F.header ≤ w.length ∧ F.announce (w.take F.header) = n ∧ 0 < n ∧ n ≤ F.limit ∧
      n ≤ w.length := by
  simp only [first]
  split <;> simp <;> omega

theorem first_eq_none : F.first w = none ↔
    w.length < F.header ∨ F.announce (w.take F.header) ≤ 0 ∨
      F.limit < F.announce (w.take F.header) ∨ w.length < F.announce (w.take F.header) := by
  simp only [first]
  split <;> simp <;> omega

theorem first_pos (h : F.first w = some n) : 0 < n := (first_eq_some.1 h).2.2.1

theorem first_le (h : F.first w = some n) : n ≤ w.length := (first_eq_some.1 h).2.2.2.2

/-- What has arrived decides the first package for good. -/
theorem first_append (h : F.first w = some n) : F.first (w ++ x) = some n := by
  obtain ⟨hh, ha, hp, hl, hw⟩ := first_eq_some.1 h
  rw [first_eq_some, List.take_append_of_le_length hh]
  simp only [List.length_append]
  exact ⟨by omega, ha, hp, hl, by omega⟩

/-- The complete packages at the front of `w`, and the rest. -/
def unframe (F : Framing α) (w : List α) : List (List α) × List α :=
  match _h : F.first w with
  | none => ([], w)
  | some n => (w.take n :: (unframe F (w.drop n)).1, (unframe F (w.drop n)).2)
termination_by w.length
decreasing_by all_goals
  have := first_pos _h
  have := first_le _h
  simp only [List.length_drop]; omega

theorem unframe_of_none (h : F.first w = none) : F.unframe w = ([], w) := by
  rw [unframe]; split <;> simp_all

theorem unframe_of_some (h : F.first w = some n) :
    F.unframe w = (w.take n :: (F.unframe (w.drop n)).1, (F.unframe (w.drop n)).2) := by
  rw [unframe]; split <;> simp_all

/-- Nothing is lost: the packages and the rest make up the stream. -/
theorem flatten_unframe : (F.unframe w).1.flatten ++ (F.unframe w).2 = w := by
  induction w using unframe.induct F with
  | case1 w h => simp [unframe_of_none h]
  | case2 w n h ih =>
    simp only [unframe_of_some h, List.flatten_cons, List.append_assoc, ih,
      List.take_append_drop]

/-- The rest holds no complete package. -/
theorem first_unframe_snd : F.first (F.unframe w).2 = none := by
  induction w using unframe.induct F with
  | case1 w h => simpa [unframe_of_none h] using h
  | case2 w n h ih => simpa [unframe_of_some h] using ih

/-- Every package has the length that some header announced. -/
theorem announce_of_mem (h : p ∈ (F.unframe w).1) : ∃ header, F.announce header = p.length := by
  induction w using unframe.induct F with
  | case1 w hnone => simp [unframe_of_none hnone] at h
  | case2 w n hsome ih =>
    rw [unframe_of_some hsome] at h
    obtain rfl | h := List.mem_cons.1 h
    · refine ⟨w.take F.header, ?_⟩
      rw [List.length_take_of_le (first_le hsome)]
      exact (first_eq_some.1 hsome).2.1
    · exact ih h

theorem unframe_snd_length_le : (F.unframe w).2.length ≤ w.length := by
  have := congrArg List.length (flatten_unframe (F := F) (w := w))
  simp only [List.length_append] at this
  omega

/-- The rest is a tail of the stream. -/
theorem drop_unframe : w.drop (w.length - (F.unframe w).2.length) = (F.unframe w).2 := by
  have h := flatten_unframe (F := F) (w := w)
  have hlen := congrArg List.length h
  rw [List.length_append] at hlen
  conv_lhs => arg 2; rw [← h]
  exact List.drop_left' (by omega)

/-- **Resumption.** Cutting `x ++ y` is cutting `x`, then cutting what is left of it before `y`. -/
theorem unframe_append : F.unframe (x ++ y) =
    ((F.unframe x).1 ++ (F.unframe ((F.unframe x).2 ++ y)).1,
      (F.unframe ((F.unframe x).2 ++ y)).2) := by
  induction x using unframe.induct F with
  | case1 x h => simp [unframe_of_none h]
  | case2 x n h ih =>
    rw [unframe_of_some h, unframe_of_some (first_append h),
      List.take_append_of_le_length (first_le h), List.drop_append_of_le_length (first_le h), ih]
    rfl

/-! ## Receiving in chunks -/

/-- A receiver that holds `r` and takes the stream in chunks: the packages that it delivers, and
what it holds afterwards. -/
def decode (F : Framing α) : List α → List (List α) → List (List α) × List α
  | r, [] => ([], r)
  | r, c :: cs =>
    let u := F.unframe (r ++ c)
    (u.1 ++ (decode F u.2 cs).1, (decode F u.2 cs).2)

/-- **Chunks do not matter**: a receiver delivers what is delivered of the stream as a whole. -/
theorem decode_eq {r : List α} {cs : List (List α)} (h : F.first r = none) :
    F.decode r cs = F.unframe (r ++ cs.flatten) := by
  induction cs generalizing r with
  | nil => simp [decode, unframe_of_none h]
  | cons c cs ih =>
    rw [decode, List.flatten_cons, ← List.append_assoc, unframe_append (x := r ++ c),
      ih first_unframe_snd]

/-! ## Genuine packages -/

/-- A package that announces its own length. -/
structure Genuine (F : Framing α) (p : List α) : Prop where
  pos : 0 < p.length
  header_le : F.header ≤ p.length
  le_limit : p.length ≤ F.limit
  announced : F.announce (p.take F.header) = p.length

theorem Genuine.first (h : F.Genuine p) : F.first (p ++ w) = some p.length := by
  rw [first_eq_some, List.take_append_of_le_length h.header_le, List.length_append]
  exact ⟨by have := h.header_le; omega, h.announced, h.pos, h.le_limit, by omega⟩

/-- A part of a genuine package that does not reach its end holds no complete package. -/
theorem Genuine.first_of_prefix (h : F.Genuine p) (hw : w <+: p) (hlt : w.length < p.length) :
    F.first w = none := by
  rw [first_eq_none]
  obtain ⟨v, rfl⟩ := hw
  by_cases hh : F.header ≤ w.length
  · have := h.announced
    rw [List.take_append_of_le_length hh] at this
    exact .inr (.inr (.inr (by rw [this]; exact_mod_cast hlt)))
  · exact .inl (by omega)

theorem unframe_genuine {ps : List (List α)} (h : ∀ p ∈ ps, F.Genuine p) :
    F.unframe (ps.flatten ++ w) = (ps ++ (F.unframe w).1, (F.unframe w).2) := by
  induction ps with
  | nil => simp
  | cons p ps ih =>
    obtain ⟨hp, hps⟩ := List.forall_mem_cons.1 h
    rw [List.flatten_cons, List.append_assoc, unframe_of_some hp.first, List.take_left,
      List.drop_left, ih hps]
    rfl

@[simp] theorem first_nil : F.first [] = none := by
  rw [first_eq_none]
  simp only [List.length_nil]
  omega

@[simp] theorem unframe_nil : F.unframe [] = ([], []) := unframe_of_none first_nil

/-- The part `x` of a genuine stream holds the first packages and the beginning of the others. -/
theorem split_of_genuine {ps : List (List α)} (h : ∀ p ∈ ps, F.Genuine p)
    (hxy : x ++ y = ps.flatten) :
    ∃ qs, ps = (F.unframe x).1 ++ qs ∧ (F.unframe x).2 ++ y = qs.flatten := by
  have hall := unframe_genuine (w := []) h
  rw [List.append_nil, unframe_nil, List.append_nil, ← hxy, unframe_append] at hall
  obtain ⟨hps, hrest⟩ := Prod.mk.inj hall
  refine ⟨_, hps.symm, ?_⟩
  have hflat := flatten_unframe (F := F) (w := (F.unframe x).2 ++ y)
  rw [hrest, List.append_nil] at hflat
  exact hflat.symm

/-- What is left of the beginning of a genuine stream is nothing, or the beginning of one of its
packages. -/
theorem unframe_snd_of_prefix {ps : List (List α)} (h : ∀ p ∈ ps, F.Genuine p)
    (hx : x <+: ps.flatten) : (F.unframe x).2 = [] ∨
      ∃ p ∈ ps, (F.unframe x).2 <+: p ∧ (F.unframe x).2.length < p.length := by
  induction ps generalizing x with
  | nil =>
    left
    have hx : x = [] := List.prefix_nil.1 hx
    have := unframe_snd_length_le (F := F) (w := x)
    exact List.length_eq_zero_iff.1 (by simp_all)
  | cons p ps ih =>
    obtain ⟨hp, hps⟩ := List.forall_mem_cons.1 h
    rw [List.flatten_cons] at hx
    by_cases hlt : x.length < p.length
    · -- the cut lies within the first package
      have hpre : x <+: p := List.prefix_of_prefix_length_le hx (List.prefix_append _ _) (by omega)
      rw [unframe_of_none (hp.first_of_prefix hpre hlt)]
      exact .inr ⟨p, List.mem_cons_self, hpre, hlt⟩
    · have hpre : p <+: x :=
        List.prefix_of_prefix_length_le (List.prefix_append _ _) hx (by omega)
      obtain ⟨v, rfl⟩ := hpre
      have hv : v <+: ps.flatten := (List.prefix_append_right_inj p).1 hx
      rw [unframe_of_some hp.first, List.drop_left]
      refine (ih hps hv).imp_right ?_
      rintro ⟨q, hq, h1, h2⟩
      exact ⟨q, List.mem_cons_of_mem _ hq, h1, h2⟩

end Framing
