import Mathlib.Tactic.Common

/-!
# Ordered sets and what stands in them

A `TreeSet` compares its elements by `cmp`, and keeps the first one of those that compare as equal.
`mem_iff` and `mem_toList_insert` say what its list has, in an order where different elements may
compare as equal.
-/

namespace OrderedSet

open Std

variable {α : Type*} {cmp : α → α → Ordering} [TransCmp cmp] {t : TreeSet α cmp} {x y : α}

/-- The equality that the comparison gives. -/
abbrev cmpBEq (cmp : α → α → Ordering) : BEq α := ⟨fun x y => cmp x y == .eq⟩

theorem cmpBEq_lawful (cmp : α → α → Ordering) : @LawfulBEqCmp α (cmpBEq cmp) cmp :=
  @LawfulBEqCmp.mk α (cmpBEq cmp) cmp fun {_ _} => beq_iff_eq.symm

/-- An element is in the set if one that compares as equal is in its list. -/
theorem mem_iff : x ∈ t ↔ ∃ y ∈ t.toList, cmp x y = .eq := by
  let beq := cmpBEq cmp
  have lawful := cmpBEq_lawful cmp
  rw [TreeSet.mem_iff_contains, ← TreeSet.contains_toList, List.contains_eq_any_beq, List.any_eq_true]
  exact exists_congr fun y => and_congr_right fun _ => lawful.compare_eq_iff_beq.symm

theorem mem_toList_insert : y ∈ (t.insert x).toList ↔ y ∈ t.toList ∨ (x ∉ t ∧ y = x) := by
  let beq := cmpBEq cmp
  have lawful := cmpBEq_lawful cmp
  rw [TreeSet.toList_insert_perm.mem_iff]
  split
  · next hx => simp [hx]
  · next hx => simp [hx, or_comm]

omit [TransCmp cmp] in
theorem toList_of_isEmpty (h : t.isEmpty = true) : t.toList = [] := by
  rwa [← TreeSet.isEmpty_toList, List.isEmpty_iff] at h

end OrderedSet
