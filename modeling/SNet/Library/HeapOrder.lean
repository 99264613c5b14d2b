import Mathlib.Order.Defs.Unbundled
import Mathlib.Order.Lattice
import SNet.Library.BinaryHeap

/-!
# The order of a heap

An array is a heap when nothing in it stands before its parent (`IsHeap`). Under a strict weak order
nothing stands before the front of a heap then (`IsHeap.front`), and pushing and popping make heaps
of heaps (`push_isHeap`, `pop_isHeap`). `HeapAlgorithms` is what may be assumed of any algorithms
that push and pop; a list in order is a heap, so that each least element may come to the front.
-/

namespace BinaryHeap

variable {α : Type*} {before before' : α → α → Bool} {xs : Array α} {x y z f : α}
  {i j k fuel : Nat}

/-- What is at `j` does not stand before what is at `i`. -/
def NotBefore (before : α → α → Bool) (xs : Array α) (j i : Nat) : Prop :=
  ∀ x y, xs[j]? = some x → xs[i]? = some y → before x y = false

/-- Nothing stands before its parent. -/
def IsHeap (before : α → α → Bool) (xs : Array α) : Prop :=
  ∀ j, 0 < j → NotBefore before xs j ((j - 1) / 2)

theorem isHeap_empty : IsHeap before #[] := fun _ _ _ _ hx => (by simp at hx)

/-- Only the comparisons of the elements count. -/
theorem IsHeap.congr (h : IsHeap before xs)
    (hsame : ∀ x ∈ xs, ∀ y ∈ xs, before' x y = before x y) : IsHeap before' xs := by
  intro j hj x y hx hy
  rw [hsame x (Array.mem_of_getElem? hx) y (Array.mem_of_getElem? hy)]
  exact h j hj x y hx hy

/-- A list in order is a heap. -/
theorem isHeap_of_pairwise (h : xs.toList.Pairwise fun x y => before y x = false) :
    IsHeap before xs := by
  intro j hj x y hx hy
  rw [← Array.getElem?_toList] at hx hy
  obtain ⟨hjlt, rfl⟩ := List.getElem?_eq_some_iff.1 hx
  obtain ⟨hilt, rfl⟩ := List.getElem?_eq_some_iff.1 hy
  exact List.pairwise_iff_getElem.1 h ((j - 1) / 2) j hilt hjlt (by omega)

/-! ## A heap but for one place -/

/-- A heap but for `i`, whose children do not stand before its parent. -/
structure RisesAt (before : α → α → Bool) (xs : Array α) (i : Nat) : Prop where
  other : ∀ j, 0 < j → j ≠ i → NotBefore before xs j ((j - 1) / 2)
  child : ∀ j, 0 < j → 0 < i → (j - 1) / 2 = i → NotBefore before xs j ((i - 1) / 2)

theorem RisesAt.isHeap (h : RisesAt before xs i)
    (hi : 0 < i → NotBefore before xs i ((i - 1) / 2)) : IsHeap before xs := by
  intro j hj
  by_cases hji : j = i
  · subst hji
    exact hi hj
  · exact h.other j hj hji

/-- A heap but for the children of `i`, which do not stand before its parent. -/
structure SinksAt (before : α → α → Bool) (xs : Array α) (i : Nat) : Prop where
  other : ∀ j, 0 < j → (j - 1) / 2 ≠ i → NotBefore before xs j ((j - 1) / 2)
  child : ∀ j, 0 < j → 0 < i → (j - 1) / 2 = i → NotBefore before xs j ((i - 1) / 2)

theorem SinksAt.isHeap (h : SinksAt before xs i)
    (hi : ∀ j, 0 < j → (j - 1) / 2 = i → NotBefore before xs j i) : IsHeap before xs := by
  intro j hj
  by_cases hp : (j - 1) / 2 = i
  · rw [hp]
    exact hi j hj hp
  · exact h.other j hj hp

theorem firstChild_child : 0 < firstChild before xs i ∧ (firstChild before xs i - 1) / 2 = i := by
  unfold firstChild
  split
  · split <;> omega
  · omega

/-! ## Strict weak orders -/

/-- Elements are compared by a key. -/
theorem isStrictWeakOrder_of_key {β : Type*} [LinearOrder β] (key : α → β)
    (h : ∀ x y, before x y = true ↔ key x < key y) :
    IsStrictWeakOrder α fun a b => before a b = true where
  irrefl x hx := lt_irrefl _ ((h x x).1 hx)
  trans x y z hxy hyz := (h x z).2 (lt_trans ((h x y).1 hxy) ((h y z).1 hyz))
  incomp_trans x y z hxy hyz := by
    simp only [h, not_lt] at hxy hyz ⊢
    exact ⟨le_trans hyz.1 hxy.1, le_trans hxy.2 hyz.2⟩

section

variable [IsStrictWeakOrder α fun a b => before a b = true]

theorem not_before_self (x : α) : before x x = false :=
  Bool.eq_false_iff.2 (Std.Irrefl.irrefl (r := fun a b => before a b = true) x)

theorem before_trans (hxy : before x y = true) (hyz : before y z = true) : before x z = true :=
  IsTrans.trans (r := fun a b => before a b = true) x y z hxy hyz

theorem not_before_of_before (h : before x y = true) : before y x = false := by
  refine Bool.eq_false_iff.2 fun hyx => ?_
  cases (not_before_self x).symm.trans (before_trans h hyx)

theorem not_before_trans (hxy : before x y = false) (hyz : before y z = false) :
    before x z = false := by
  refine Bool.eq_false_iff.2 fun hxz => ?_
  have hzy : before z y = false := by
    refine Bool.eq_false_iff.2 fun hzy => ?_
    cases hxy.symm.trans (before_trans hxz hzy)
  have hyx : before y x = false := by
    refine Bool.eq_false_iff.2 fun hyx => ?_
    cases hyz.symm.trans (before_trans hyx hxz)
  refine (@IsStrictWeakOrder.incomp_trans α (fun a b => before a b = true) _ x y z
    ⟨?_, ?_⟩ ⟨?_, ?_⟩).1 hxz
  · exact Bool.eq_false_iff.1 hxy
  · exact Bool.eq_false_iff.1 hyx
  · exact Bool.eq_false_iff.1 hyz
  · exact Bool.eq_false_iff.1 hzy

/-- **The front of a heap** is a least element. -/
theorem IsHeap.front (h : IsHeap before xs) (hfront : xs[0]? = some f) (hx : x ∈ xs) :
    before x f = false := by
  obtain ⟨i, hi⟩ := Array.getElem?_of_mem hx
  induction i using Nat.strongRecOn generalizing x with
  | _ i ih =>
    rcases Nat.eq_zero_or_pos i with rfl | hpos
    · cases hi.symm.trans hfront
      exact not_before_self _
    · have hlt : i < xs.size := (Array.getElem?_eq_some_iff.1 hi).1
      have hparent : xs[(i - 1) / 2]? = some xs[(i - 1) / 2] :=
        Array.getElem?_eq_getElem (by omega)
      have hle := ih ((i - 1) / 2) (by omega) (Array.mem_of_getElem? hparent) hparent
      exact not_before_trans (h i hpos x _ hi hparent) hle

/-! ## Sifting up -/

/-- An exchange with the parent. -/
theorem RisesAt.swap (h : RisesAt before xs i) (hi : 0 < i) (hx : xs[i]? = some x)
    (hy : xs[(i - 1) / 2]? = some y) (hxy : before x y = true) :
    RisesAt before (xs.swapIfInBounds i ((i - 1) / 2)) ((i - 1) / 2) := by
  have hswap : ∀ k, (xs.swapIfInBounds i ((i - 1) / 2))[k]? =
      if (i - 1) / 2 = k then some x else if i = k then some y else xs[k]? := fun k =>
    getElem?_swapIfInBounds hx hy
  have hsibling : ∀ j z, 0 < j → j ≠ i → (j - 1) / 2 = (i - 1) / 2 → xs[j]? = some z →
      before z y = false := fun j z hj hji hp hz =>
    h.other j hj hji z y hz (by rw [hp]; exact hy)
  constructor
  · intro j hj hjp u v hu hv
    rw [hswap, if_neg (Ne.symm hjp)] at hu
    rw [hswap] at hv
    by_cases hji : j = i
    · subst hji
      rw [if_pos rfl] at hu hv
      cases hu
      cases hv
      exact not_before_of_before hxy
    · rw [if_neg (Ne.symm hji)] at hu
      split at hv
      · next hp =>
        cases hv
        have hle := hsibling j u hj hji hp.symm hu
        refine Bool.eq_false_iff.2 fun hux => ?_
        cases hle.symm.trans (before_trans hux hxy)
      · split at hv
        · next hp =>
          cases hv
          exact h.child j hj hi hp.symm u y hu hy
        · exact h.other j hj hji u v hu hv
  · intro j hj hp0 hjp u v hu hv
    have hgrand := h.other ((i - 1) / 2) hp0 (by omega)
    rw [hswap, if_neg (by omega), if_neg (by omega)] at hv
    have hle := hgrand y v hy hv
    rw [hswap, if_neg (by omega)] at hu
    split at hu
    · cases hu
      exact hle
    · next hji => exact not_before_trans (hsibling j u hj (Ne.symm hji) hjp hu) hle

theorem RisesAt.siftUp (h : RisesAt before xs i) (hfuel : i ≤ fuel) :
    IsHeap before (siftUp before fuel xs i) := by
  induction fuel generalizing xs i with
  | zero => exact h.isHeap fun hi => absurd hi (by omega)
  | succ fuel ih =>
    rw [BinaryHeap.siftUp]
    split
    · next x y hx hy =>
      split
      · next hxy =>
        have hi : 0 < i := by
          refine Nat.pos_of_ne_zero ?_
          rintro rfl
          cases hx.symm.trans hy
          cases (not_before_self x).symm.trans hxy
        exact ih (h.swap hi hx hy hxy) (by omega)
      · next hxy =>
        refine h.isHeap fun _ u v hu hv => ?_
        cases hx.symm.trans hu
        cases hy.symm.trans hv
        exact Bool.eq_false_iff.2 hxy
    · next hnone =>
      exact h.isHeap fun _ u v hu hv => absurd hv (fun hv => hnone u v hu hv)

/-- **Pushing** makes a heap of a heap. -/
theorem push_isHeap (h : IsHeap before xs) : IsHeap before (push before xs x) := by
  refine RisesAt.siftUp ⟨fun j hj hne u v hu hv => ?_, fun j hj _ hp u v hu hv => ?_⟩ (Nat.le_refl _)
  · rw [Array.getElem?_push, if_neg hne] at hu
    have hlt := (Array.getElem?_eq_some_iff.1 hu).1
    rw [Array.getElem?_push, if_neg (by omega)] at hv
    exact h j hj u v hu hv
  · have hlt := (Array.getElem?_eq_some_iff.1 hu).1
    rw [Array.size_push] at hlt
    omega

/-! ## Sifting down -/

/-- No child of `i` stands before the first one. -/
theorem not_before_firstChild (hj : 0 < j) (hp : (j - 1) / 2 = i) :
    NotBefore before xs j (firstChild before xs i) := by
  intro u v hu hv
  have hside : j = 2 * i + 1 ∨ j = 2 * i + 2 := by omega
  rw [firstChild] at hv
  split at hv
  · next l r hl hr =>
    split at hv
    · next hrl =>
      cases hr.symm.trans hv
      rcases hside with rfl | rfl
      · cases hl.symm.trans hu
        exact not_before_of_before hrl
      · cases hr.symm.trans hu
        exact not_before_self _
    · next hrl =>
      cases hl.symm.trans hv
      rcases hside with rfl | rfl
      · cases hl.symm.trans hu
        exact not_before_self _
      · cases hr.symm.trans hu
        exact Bool.eq_false_iff.2 hrl
  · next hnone =>
    rcases hside with rfl | rfl
    · cases hu.symm.trans hv
      exact not_before_self _
    · exact absurd hu fun hu => hnone v u hv hu

/-- An exchange with the first child. -/
theorem SinksAt.swap (h : SinksAt before xs i) (hx : xs[i]? = some x)
    (hy : xs[firstChild before xs i]? = some y) (hyx : before y x = true) :
    SinksAt before (xs.swapIfInBounds i (firstChild before xs i)) (firstChild before xs i) := by
  obtain ⟨hc, hci⟩ := @firstChild_child α before xs i
  have hfirst := fun j hj hp => @not_before_firstChild α before xs i j _ hj hp
  generalize firstChild before xs i = c at hy hc hci hfirst ⊢
  have hswap : ∀ k, (xs.swapIfInBounds i c)[k]? =
      if c = k then some x else if i = k then some y else xs[k]? := fun k =>
    getElem?_swapIfInBounds hx hy
  constructor
  · intro j hj hjc u v hu hv
    rw [hswap, if_neg (Ne.symm hjc)] at hv
    rw [hswap] at hu
    split at hv
    · next hp =>
      cases hv
      split at hu
      · cases hu
        exact not_before_of_before hyx
      · rw [if_neg (by omega)] at hu
        exact hfirst j hj hp.symm u y hu hy
    · next hp =>
      rw [if_neg (by omega)] at hu
      split at hu
      · next hij =>
        cases hu
        subst hij
        exact h.child c hc hj hci y v hy hv
      · exact h.other j hj (Ne.symm hp) u v hu hv
  · intro j hj _ hjc u v hu hv
    rw [hci, hswap, if_neg (by omega), if_pos rfl] at hv
    cases hv
    rw [hswap, if_neg (by omega), if_neg (by omega)] at hu
    have hle := h.other j hj (by omega)
    rw [hjc] at hle
    exact hle u y hu hy

theorem SinksAt.siftDown (h : SinksAt before xs i) (hfuel : xs.size ≤ i + fuel) :
    IsHeap before (siftDown before fuel xs i) := by
  induction fuel generalizing xs i with
  | zero =>
    refine h.isHeap fun j _ _ u v hu hv => ?_
    have hlt := (Array.getElem?_eq_some_iff.1 hv).1
    omega
  | succ fuel ih =>
    rw [BinaryHeap.siftDown]
    have hchild := @firstChild_child α before xs i
    split
    · next x y hx hy =>
      split
      · next hyx =>
        refine ih (h.swap hx hy hyx) ?_
        rw [Array.size_swapIfInBounds]
        omega
      · next hyx =>
        refine h.isHeap fun j hj hp u v hu hv => ?_
        cases hx.symm.trans hv
        exact not_before_trans (not_before_firstChild hj hp u y hu hy) (Bool.eq_false_iff.2 hyx)
    · next hnone =>
      -- where the first child is missing there is no child at all
      refine h.isHeap fun j hj hp u v hu hv => ?_
      have hlt := (Array.getElem?_eq_some_iff.1 hu).1
      have hsome : ∃ w, xs[firstChild before xs i]? = some w := by
        rw [firstChild]
        split
        · next l r hl hr =>
          split
          · exact ⟨r, hr⟩
          · exact ⟨l, hl⟩
        · exact ⟨_, Array.getElem?_eq_getElem (show 2 * i + 1 < xs.size by omega)⟩
      obtain ⟨w, hw⟩ := hsome
      exact absurd hw fun hw => hnone v w hv hw

/-- **Popping** makes a heap of a heap. -/
theorem pop_isHeap (h : IsHeap before xs) : IsHeap before (pop before xs) := by
  refine SinksAt.siftDown ⟨fun j hj hp u v hu hv => ?_, fun _ _ hi => absurd hi (by omega)⟩ (by omega)
  have hkeep : ∀ k w, 0 < k → (xs.swapIfInBounds 0 (xs.size - 1)).pop[k]? = some w →
      xs[k]? = some w := by
    intro k w hk hw
    rw [Array.getElem?_pop, Array.size_swapIfInBounds] at hw
    split at hw
    · next hlt =>
      rw [getElem?_swapIfInBounds (Array.getElem?_eq_getElem (by omega))
        (Array.getElem?_eq_getElem (by omega)), if_neg (by omega), if_neg (by omega)] at hw
      exact hw
    · cases hw
  exact h j hj u v (hkeep j u hj hu) (hkeep _ v (by omega) hv)

end

end BinaryHeap

open BinaryHeap

/-- Algorithms that work on an array as `push_heap` and `pop_heap` do: one takes the last element into
the heap before it, the other takes the front of a heap to the end. -/
structure HeapAlgorithms {α : Type*} (before : α → α → Bool) where
  pushHeap : Array α → Array α
  popHeap : Array α → Array α
  pushHeap_perm : ∀ {xs x}, IsHeap before xs → (pushHeap (xs.push x)).toList.Perm (x :: xs.toList)
  pushHeap_isHeap : ∀ {xs x}, IsHeap before xs → IsHeap before (pushHeap (xs.push x))
  popHeap_eq : ∀ {xs f}, IsHeap before xs → xs[0]? = some f →
    ∃ ys, popHeap xs = ys.push f ∧ IsHeap before ys ∧ (f :: ys.toList).Perm xs.toList

namespace HeapAlgorithms

variable {α : Type*} {before : α → α → Bool} [IsStrictWeakOrder α fun a b => before a b = true]
  {xs : Array α} {f y : α}

/-- The algorithms that sift. -/
def sifting : HeapAlgorithms before where
  pushHeap xs := siftUp before (xs.size - 1) xs (xs.size - 1)
  popHeap xs :=
    match xs[0]? with
    | some f => (pop before xs).push f
    | none => xs
  pushHeap_perm {xs x} _ := by
    rw [Array.size_push]
    exact push_perm
  pushHeap_isHeap {xs x} h := by
    rw [Array.size_push]
    exact push_isHeap h
  popHeap_eq {xs f} h hf := by
    rw [hf]
    exact ⟨pop before xs, rfl, pop_isHeap h, pop_perm hf⟩

/-- The algorithms `A`, but for what `popHeap` makes of one array. -/
def popTo [DecidableEq α] (A : HeapAlgorithms before) (xs ys : Array α) (f : α)
    (hf : xs[0]? = some f) (hys : IsHeap before ys) (hperm : (f :: ys.toList).Perm xs.toList) :
    HeapAlgorithms before where
  pushHeap := A.pushHeap
  popHeap zs := if zs = xs then ys.push f else A.popHeap zs
  pushHeap_perm := A.pushHeap_perm
  pushHeap_isHeap := A.pushHeap_isHeap
  popHeap_eq {zs g} h hg := by
    split
    · next hzs =>
      subst hzs
      cases hf.symm.trans hg
      exact ⟨ys, rfl, hys, hperm⟩
    · exact A.popHeap_eq h hg

/-- Any least element of the rest may come to the front. -/
theorem exists_front [DecidableEq α] (A : HeapAlgorithms before) (hf : xs[0]? = some f)
    (hy : y ∈ xs.toList.erase f) (hleast : ∀ z ∈ xs, before z y = false) :
    ∃ (B : HeapAlgorithms before) (ys : Array α), B.popHeap xs = ys.push f ∧ ys[0]? = some y := by
  let rest := ((xs.toList.erase f).erase y).mergeSort fun a b => !before b a
  have hperm : (f :: y :: rest).Perm xs.toList := by
    have hmem : f ∈ xs.toList := Array.mem_toList_iff.2 (Array.mem_of_getElem? hf)
    have hsort : (y :: rest).Perm (xs.toList.erase f) :=
      ((List.mergeSort_perm _ _).cons y).trans (List.perm_cons_erase hy).symm
    exact (hsort.cons f).trans (List.perm_cons_erase hmem).symm
  have horder : rest.Pairwise fun a b => before b a = false := by
    refine (List.pairwise_mergeSort (fun a b c hab hbc => ?_) (fun a b => ?_) _).imp fun hab => ?_
    · rw [Bool.not_eq_true'] at hab hbc ⊢
      exact not_before_trans hbc hab
    · cases hba : before b a with
      | false => rfl
      | true =>
        rw [not_before_of_before hba]
        rfl
    · rwa [Bool.not_eq_true'] at hab
  have hheap : IsHeap before (y :: rest).toArray := by
    refine isHeap_of_pairwise (List.pairwise_cons.2 ⟨fun z hz => hleast z ?_, horder⟩)
    exact Array.mem_toList_iff.1 (hperm.subset (.tail _ (.tail _ hz)))
  exact ⟨A.popTo xs _ f hf hheap hperm, _, if_pos rfl, rfl⟩

end HeapAlgorithms
