import SNet.Library.HeapOrder
import SNet.Library.Machine

/-!
# The min heap

`MinHeap` over any correct `std::push_heap` and `std::pop_heap`. `pop` binds a reference to the first
slot before it takes the item out, and reads it afterwards: what it returns is the item that comes to
the front then, or nothing that exists any more if there was only one (`popsTop_iff`).
-/

namespace SNet.Utils

variable {α : Type*} {before : α → α → Bool}

namespace MinHeap

/-- `insert`; `before x y` is `Compare{}(y, x)`. -/
def insert (A : HeapAlgorithms before) (heapData : Array α) (item : α) : Array α :=
  let xs := heapData.push item
  if 1 < xs.size then A.pushHeap xs else xs

/-- `top`, with the `static T empty`. -/
def top (empty : α) (heapData : Array α) : Bool × α :=
  match heapData[0]? with
  | some x => (true, x)
  | none => (false, empty)

/-- `pop`: what it returns, `none` for an item that was destroyed, and what is left. -/
def pop (A : HeapAlgorithms before) (empty : α) (heapData : Array α) :
    (Bool × Option α) × Array α :=
  if heapData.isEmpty then ((false, some empty), heapData)
  else
    let rest := (A.popHeap heapData).pop
    -- the reference `top` is read when the last slot is gone
    ((true, rest[0]?), rest)

end MinHeap

inductive HeapAction (α : Type*)
  | insert (item : α)
  | pop

/-- The calls that change a heap. -/
def minHeap (A : HeapAlgorithms before) (empty : α) : Machine (Array α) (HeapAction α) where
  enabled _ _ := True
  next xs
    | .insert item => MinHeap.insert A xs item
    | .pop => (MinHeap.pop A empty xs).2

/-- A pop returns what `top()` would have returned, which is a least item, and takes it out. -/
structure PopsTop (A : HeapAlgorithms before) (empty : α) (xs : Array α) : Prop where
  returned : (MinHeap.pop A empty xs).1 = ((MinHeap.top empty xs).1, some (MinHeap.top empty xs).2)
  least : ∀ x ∈ xs, before x (MinHeap.top empty xs).2 = false
  remaining : ((MinHeap.top empty xs).2 :: (MinHeap.pop A empty xs).2.toList).Perm xs.toList
  leastNext : ∀ x ∈ (MinHeap.pop A empty xs).2,
    before x (MinHeap.top empty (MinHeap.pop A empty xs).2).2 = false

/-! ## Heaps -/

open BinaryHeap

section

variable {A : HeapAlgorithms before} {e f x : α} {xs : Array α} {as : List (HeapAction α)}

theorem MinHeap.top_eq (hf : xs[0]? = some f) : MinHeap.top e xs = (true, f) := by
  rw [MinHeap.top, hf]

theorem MinHeap.insert_isHeap (h : IsHeap before xs) : IsHeap before (MinHeap.insert A xs x) := by
  rw [MinHeap.insert]
  split
  · exact A.pushHeap_isHeap h
  · next hsize =>
    -- the only item
    rw [Array.size_push] at hsize
    intro j hj u v hu _
    have hlt := (Array.getElem?_eq_some_iff.1 hu).1
    rw [Array.size_push] at hlt
    omega

theorem MinHeap.insert_perm (h : IsHeap before xs) :
    (MinHeap.insert A xs x).toList.Perm (x :: xs.toList) := by
  rw [MinHeap.insert]
  split
  · exact A.pushHeap_perm h
  · rw [Array.toList_push]
    exact List.perm_append_singleton x xs.toList

/-- What `pop` does to a heap that is not empty. -/
theorem MinHeap.pop_eq (h : IsHeap before xs) (hf : xs[0]? = some f) :
    ∃ ys, MinHeap.pop A e xs = ((true, ys[0]?), ys) ∧ A.popHeap xs = ys.push f ∧
      IsHeap before ys ∧ (f :: ys.toList).Perm xs.toList := by
  obtain ⟨ys, hys, hheap, hperm⟩ := A.popHeap_eq h hf
  refine ⟨ys, ?_, hys, hheap, hperm⟩
  have hne : xs.isEmpty = false := by
    rw [Array.isEmpty, decide_eq_false_iff_not]
    exact Nat.ne_of_gt (Array.getElem?_eq_some_iff.1 hf).1
  rw [MinHeap.pop, hne, hys, Array.pop_push]
  rfl

theorem MinHeap.pop_isHeap (h : IsHeap before xs) : IsHeap before (MinHeap.pop A e xs).2 := by
  cases hf : xs[0]? with
  | none =>
    have hnil : xs = #[] := Array.size_eq_zero_iff.1 (by simpa using hf)
    subst hnil
    exact isHeap_empty
  | some f =>
    obtain ⟨ys, hpop, -, hheap, -⟩ := MinHeap.pop_eq (A := A) (e := e) h hf
    rw [hpop]
    exact hheap

/-- Inserts and pops keep a heap a heap. -/
theorem minHeap_isHeap (h : IsHeap before xs) : IsHeap before ((minHeap A e).exec xs as) := by
  induction as generalizing xs with
  | nil => exact h
  | cons a as ih =>
    refine ih ?_
    cases a with
    | insert item => exact MinHeap.insert_isHeap h
    | pop => exact MinHeap.pop_isHeap h

variable [IsStrictWeakOrder α fun a b => before a b = true]

/-- All that `pop` does but for what it returns. -/
theorem popsTop_of_front (h : IsHeap before xs) (hf : xs[0]? = some f)
    (hnext : (A.popHeap xs).pop[0]? = some f) : PopsTop A e xs := by
  obtain ⟨ys, hpop, hys, hheap, hperm⟩ := MinHeap.pop_eq (A := A) (e := e) h hf
  rw [hys, Array.pop_push] at hnext
  refine ⟨?_, ?_, ?_, ?_⟩
  · rw [hpop, MinHeap.top_eq hf, hnext]
  · rw [MinHeap.top_eq hf]
    exact fun x hx => h.front hf hx
  · rw [hpop, MinHeap.top_eq hf]
    exact hperm
  · rw [hpop, MinHeap.top_eq hnext]
    exact fun x hx => hheap.front hnext hx

variable [DecidableEq α]

/-- **`pop` returns the top** of a heap, whatever the algorithms do, if and only if the least item is
stored twice and no other item is as small. -/
theorem popsTop_iff (hxs : xs = (minHeap A e).exec #[] as) (hf : xs[0]? = some f) :
    (∀ B : HeapAlgorithms before, PopsTop B e xs) ↔
      f ∈ xs.toList.erase f ∧ ∀ x ∈ xs, (∀ y ∈ xs, before y x = false) → x = f := by
  have h : IsHeap before xs := hxs ▸ minHeap_isHeap isHeap_empty
  have hmem : f ∈ xs.toList := Array.mem_toList_iff.2 (Array.mem_of_getElem? hf)
  have hleast : ∀ x ∈ xs, before x f = false := fun x hx => h.front hf hx
  have hrest : ∀ {ys : Array α}, (f :: ys.toList).Perm xs.toList →
      ys.toList.Perm (xs.toList.erase f) := fun hperm =>
    (hperm.trans (List.perm_cons_erase hmem)).cons_inv
  constructor
  · intro hpops
    obtain ⟨zs, hpop, -, -, hperm⟩ := MinHeap.pop_eq (A := A) (e := e) h hf
    have hret := (hpops A).returned
    rw [hpop, MinHeap.top_eq hf] at hret
    have hagain : f ∈ zs.toList := Array.mem_toList_iff.2 (Array.mem_of_getElem? (Prod.mk.inj hret).2)
    refine ⟨(hrest hperm).subset hagain, fun x hx hxleast => ?_⟩
    by_contra hne
    -- an algorithm may bring `x` to the front, and then it is returned
    have hxrest : x ∈ xs.toList.erase f :=
      (List.mem_erase_of_ne hne).2 (Array.mem_toList_iff.2 hx)
    obtain ⟨B, ys, hB, hy0⟩ := A.exists_front hf hxrest hxleast
    obtain ⟨us, hpop', hus, -, -⟩ := MinHeap.pop_eq (A := B) (e := e) h hf
    have heq : ys = us := (Array.push_inj_left).1 (hB.symm.trans hus)
    have hret' := (hpops B).returned
    rw [hpop', MinHeap.top_eq hf, ← heq, hy0] at hret'
    exact hne (Option.some.inj (Prod.mk.inj hret').2)
  · rintro ⟨htwice, honly⟩ B
    obtain ⟨ys, -, hys, hheap, hperm⟩ := MinHeap.pop_eq (A := B) (e := e) h hf
    refine popsTop_of_front h hf ?_
    rw [hys, Array.pop_push]
    have hfys : f ∈ ys := Array.mem_toList_iff.1 ((hrest hperm).symm.subset htwice)
    have hpos : 0 < ys.size := Array.size_pos_of_mem hfys
    have hfront : ys[0]? = some ys[0] := Array.getElem?_eq_getElem hpos
    rw [hfront]
    refine congrArg some (honly _ ?_ fun y hy => ?_)
    · have hmem' : ys[0] ∈ ys.toList := Array.mem_toList_iff.2 (Array.getElem_mem hpos)
      exact Array.mem_toList_iff.1 (hperm.subset (.tail _ hmem'))
    · rcases List.mem_cons.1 (hperm.symm.subset (Array.mem_toList_iff.2 hy)) with rfl | hy
      · exact hheap.front hfront hfys
      · exact hheap.front hfront (Array.mem_toList_iff.1 hy)

end

/-- The order of the numbers. -/
def numbersBefore (x y : Nat) : Bool := x < y

instance : IsStrictWeakOrder Nat fun x y => numbersBefore x y = true :=
  isStrictWeakOrder_of_key id fun _ _ => decide_eq_true_iff

/-- The least number is stored twice. -/
theorem popsTop_iff_twice :
    PopsTop (HeapAlgorithms.sifting : HeapAlgorithms numbersBefore) 0 #[1, 1, 2] :=
  (@popsTop_iff Nat numbersBefore .sifting 0 1 #[1, 1, 2] [.insert 1, .insert 1, .insert 2] _ _
    (by decide) rfl).2 (by decide) .sifting

theorem pop_returns_next : ¬ ∀ (A : HeapAlgorithms numbersBefore) (as : List (HeapAction Nat)),
    (minHeap A 0).exec #[] as ≠ #[] → PopsTop A 0 ((minHeap A 0).exec #[] as) := by
  intro h
  have hret := (h .sifting [.insert 1, .insert 2] (by decide)).returned
  revert hret
  decide

end SNet.Utils
