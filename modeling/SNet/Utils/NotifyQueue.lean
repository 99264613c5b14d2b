import SNet.Library.Machine
import SNet.Library.OrderedSet

/-!
# The notify queue

`NotifyQueue` has a set that every thread pushes to and a private one that its consumer works off.
`process` swaps them when the private one is empty, passes what is in it, and clears it when the pass
is over. A processor that throws leaves the private set, so the next call passes all of it again.
`notifyQueue_losesNothing` says what becomes of a pushed item in any interleaving.
-/

namespace SNet.Utils

open Std

variable {α : Type*} {cmp : α → α → Ordering}

/-- Where the consumer stands in `process`; `rest` is what its loop has not passed yet. -/
inductive Consumer (α : Type*)
  | idle
  | passing (rest : List α)
  | calling (rest : List α)
  | completing

structure NotifyQueue (cmp : α → α → Ordering) where
  data : TreeSet α cmp := ∅
  cache : TreeSet α cmp := ∅
  consumer : Consumer α := .idle

/-- What happens next: any thread, or the processor itself, pushes; the consumer enters `process`, is
in a call of the processor, which returns or throws, clears, and is in the completion, which returns
or throws. -/
inductive QueueAction (α : Type*)
  | push (item : α)
  | enter
  | call
  | ret
  | throw
  | clear
  | complete
  | abort

namespace NotifyQueue

def push (q : NotifyQueue cmp) (item : α) : NotifyQueue cmp :=
  { q with data := q.data.insert item }

/-- The section of `process` under the mutex. -/
def swapIfEmpty (q : NotifyQueue cmp) : NotifyQueue cmp :=
  if q.cache.isEmpty then { q with data := q.cache, cache := q.data } else q

/-- The item that the loop passes next. -/
def nextItem (q : NotifyQueue cmp) : Option α :=
  match q.consumer with
  | .passing (item :: _) => some item
  | _ => none

end NotifyQueue

open NotifyQueue

/-- One consumer calls `process`, while items are pushed at any time. -/
def notifyQueue (cmp : α → α → Ordering) : Machine (NotifyQueue cmp) (QueueAction α) where
  enabled q
    | .push _ => True
    | .enter => q.consumer = .idle
    | .call => ∃ item rest, q.consumer = .passing (item :: rest)
    | .ret | .throw => ∃ rest, q.consumer = .calling rest
    | .clear => q.consumer = .passing []
    | .complete | .abort => q.consumer = .completing
  next q
    | .push item => q.push item
    | .enter => { q.swapIfEmpty with consumer := .passing q.swapIfEmpty.cache.toList }
    | .call =>
      match q.consumer with
      | .passing (_ :: rest) => { q with consumer := .calling rest }
      | _ => q
    | .ret =>
      match q.consumer with
      | .calling rest => { q with consumer := .passing rest }
      | _ => q
    | .throw => { q with consumer := .idle }
    | .clear => { q with cache := ∅, consumer := .completing }
    | .complete | .abort => { q with consumer := .idle }

namespace NotifyQueue

/-- A call of `process` comes to its end. -/
def isComplete : QueueAction α → Bool
  | .complete => true
  | _ => false

/-- The calls of `process` that come to their end in a schedule. -/
def completions (as : List (QueueAction α)) : Nat := as.countP isComplete

/-- The items that are pushed in a schedule. -/
def pushes (as : List (QueueAction α)) : List α :=
  as.filterMap fun
    | .push item => some item
    | _ => none

/-- The items that the processor is called with in a schedule. -/
def passes : NotifyQueue cmp → List (QueueAction α) → List α
  | _, [] => []
  | q, .call :: as => q.nextItem.toList ++ passes ((notifyQueue cmp).next q .call) as
  | q, a :: as => passes ((notifyQueue cmp).next q a) as

/-! ## Every item is passed -/

/-- An equal of the item is in the private set, still ahead of the loop. -/
def Cached (q : NotifyQueue cmp) (x : α) : Prop :=
  ∃ y ∈ q.cache.toList, cmp x y = .eq ∧
    match q.consumer with
    | .idle => True
    | .passing rest | .calling rest => y ∈ rest
    | .completing => False

/-- Where an item can be that was pushed `n` completed calls ago and not passed since. -/
def Pending (q : NotifyQueue cmp) (x : α) : Nat → Prop
  | 0 => x ∈ q.data ∨ Cached q x
  | 1 => (x ∈ q.data ∧ q.consumer = .idle ∧ q.cache.isEmpty = true) ∨ Cached q x
  | _ => False

/-- Behind the pass the private set is empty. -/
def Cleared (q : NotifyQueue cmp) : Prop := q.consumer = .completing → q.cache.isEmpty = true

variable {q : NotifyQueue cmp} {x y : α} {a : QueueAction α} {as : List (QueueAction α)} {n : Nat}

theorem cleared_next (ha : (notifyQueue cmp).enabled q a) (h : Cleared q) :
    Cleared ((notifyQueue cmp).next q a) := by
  cases a with
  | push item => exact h
  | enter | throw | complete | abort =>
    intro hc
    cases hc
  | call =>
    obtain ⟨item, rest, hq⟩ := ha
    simp [Cleared, notifyQueue, hq]
  | ret =>
    obtain ⟨rest, hq⟩ := ha
    simp [Cleared, notifyQueue, hq]
  | clear => exact fun _ => TreeSet.isEmpty_emptyc

/-- What is in both sets when the consumer enters. -/
theorem next_enter_of_isEmpty (h : q.cache.isEmpty = true) :
    (notifyQueue cmp).next q .enter =
      { data := q.cache, cache := q.data, consumer := .passing q.data.toList } := by
  simp [notifyQueue, swapIfEmpty, h]

theorem next_enter_of_not_isEmpty (h : q.cache.isEmpty = false) :
    (notifyQueue cmp).next q .enter = { q with consumer := .passing q.cache.toList } := by
  simp [notifyQueue, swapIfEmpty, h]

theorem cached_next (ha : (notifyQueue cmp).enabled q a) (h : Cached q x) :
    (a = .call ∧ ∃ y, q.nextItem = some y ∧ cmp x y = .eq) ∨
      (Cached ((notifyQueue cmp).next q a) x ∧ isComplete a = false) := by
  obtain ⟨y, hy, hxy, hrest⟩ := h
  cases a with
  | push item => exact .inr ⟨⟨y, hy, hxy, hrest⟩, rfl⟩
  | enter =>
    have hne : q.cache.isEmpty = false := by
      rw [← TreeSet.isEmpty_toList]
      exact List.isEmpty_eq_false_iff.2 (List.ne_nil_of_mem hy)
    rw [next_enter_of_not_isEmpty hne]
    exact .inr ⟨⟨y, hy, hxy, hy⟩, rfl⟩
  | call =>
    obtain ⟨item, rest, hq⟩ := ha
    rw [hq] at hrest
    rcases List.mem_cons.1 hrest with hitem | hmem
    · refine .inl ⟨rfl, item, ?_, hitem ▸ hxy⟩
      rw [nextItem, hq]
    · refine .inr ⟨⟨y, ?_⟩, rfl⟩
      simp [notifyQueue, hq, hy, hxy, hmem]
  | ret =>
    obtain ⟨rest, hq⟩ := ha
    rw [hq] at hrest
    refine .inr ⟨⟨y, ?_⟩, rfl⟩
    simp only [notifyQueue, hq]
    exact ⟨hy, hxy, hrest⟩
  | throw => exact .inr ⟨⟨y, hy, hxy, trivial⟩, rfl⟩
  | clear =>
    rw [show q.consumer = .passing [] from ha] at hrest
    exact absurd hrest List.not_mem_nil
  | complete | abort =>
    rw [show q.consumer = .completing from ha] at hrest
    exact hrest.elim

variable [TransCmp cmp]

theorem cached_of_swap (hx : x ∈ q.data) (h : q.cache.isEmpty = true) :
    Cached ((notifyQueue cmp).next q .enter) x := by
  obtain ⟨y, hy, hxy⟩ := OrderedSet.mem_iff.1 hx
  rw [next_enter_of_isEmpty h]
  exact ⟨y, hy, hxy, hy⟩

theorem pushed_next (ha : (notifyQueue cmp).enabled q a) (hq : Cleared q) (hx : x ∈ q.data) :
    Pending ((notifyQueue cmp).next q a) x (if isComplete a then 1 else 0) := by
  cases a with
  | push item => exact .inl (TreeSet.mem_insert.2 (.inr hx))
  | enter =>
    cases he : q.cache.isEmpty with
    | true => exact .inr (cached_of_swap hx he)
    | false =>
      rw [next_enter_of_not_isEmpty he]
      exact .inl hx
  | call =>
    obtain ⟨item, rest, hq⟩ := ha
    refine .inl ?_
    simpa [notifyQueue, hq] using hx
  | ret =>
    obtain ⟨rest, hq⟩ := ha
    refine .inl ?_
    simpa [notifyQueue, hq] using hx
  | throw | clear | abort => exact .inl hx
  | complete => exact .inl ⟨hx, rfl, hq ha⟩

theorem waiting_next (ha : (notifyQueue cmp).enabled q a) (hx : x ∈ q.data)
    (hidle : q.consumer = .idle) (he : q.cache.isEmpty = true) :
    Pending ((notifyQueue cmp).next q a) x 1 ∧ isComplete a = false := by
  cases a with
  | push item => exact ⟨.inl ⟨TreeSet.mem_insert.2 (.inr hx), hidle, he⟩, rfl⟩
  | enter => exact ⟨.inr (cached_of_swap hx he), rfl⟩
  | call =>
    obtain ⟨item, rest, hq⟩ := ha
    rw [hidle] at hq
    cases hq
  | ret | throw =>
    obtain ⟨rest, hq⟩ := ha
    rw [hidle] at hq
    cases hq
  | clear | complete | abort => cases hidle.symm.trans ha

/-- What a step makes of an item that is still to be passed. -/
theorem pending_next (ha : (notifyQueue cmp).enabled q a) (hq : Cleared q) (h : Pending q x n) :
    (a = .call ∧ n ≤ 1 ∧ ∃ y, q.nextItem = some y ∧ cmp x y = .eq) ∨
      Pending ((notifyQueue cmp).next q a) x (n + if isComplete a then 1 else 0) := by
  match n, h with
  | 0, .inl hx =>
    rw [Nat.zero_add]
    exact .inr (pushed_next ha hq hx)
  | 0, .inr hx =>
    rcases cached_next ha hx with ⟨hcall, hy⟩ | ⟨hx', hc⟩
    · exact .inl ⟨hcall, Nat.zero_le 1, hy⟩
    · rw [hc]
      exact .inr (.inr hx')
  | 1, .inl ⟨hx, hidle, he⟩ =>
    obtain ⟨hx', hc⟩ := waiting_next ha hx hidle he
    rw [hc]
    exact .inr hx'
  | 1, .inr hx =>
    rcases cached_next ha hx with ⟨hcall, hy⟩ | ⟨hx', hc⟩
    · exact .inl ⟨hcall, Nat.le_refl 1, hy⟩
    · rw [hc]
      exact .inr (.inr hx')

/-- An item that is still to be passed is passed before the second completed call. -/
theorem passed_of_pending (h : (notifyQueue cmp).Runs q as) (hq : Cleared q) (hx : Pending q x n)
    (hn : 2 ≤ n + completions as) :
    ∃ bs y cs, as = bs ++ .call :: cs ∧ n + completions bs ≤ 1 ∧
      ((notifyQueue cmp).exec q bs).nextItem = some y ∧ cmp x y = .eq := by
  induction as generalizing q n with
  | nil =>
    match n, hx with
    | 0, _ => cases hn
    | 1, _ => simp [completions] at hn
  | cons a as ih =>
    rcases pending_next h.1 hq hx with ⟨rfl, hle, y, hy, hxy⟩ | hx'
    · exact ⟨[], y, as, rfl, hle, hy, hxy⟩
    · have hsum : 2 ≤ (n + if isComplete a then 1 else 0) + completions as := by
        rw [completions, List.countP_cons] at hn
        rw [completions]
        omega
      obtain ⟨bs, y, cs, rfl, hle, hy, hxy⟩ := ih h.2 (cleared_next h.1 hq) hx' hsum
      refine ⟨a :: bs, y, cs, rfl, ?_, hy, hxy⟩
      rw [completions, List.countP_cons]
      rw [completions] at hle
      omega

/-! ## Batches -/

/-- What is passed between one swap and the next, of what was pushed between the swap before and that
one; all of it when the pass is over. -/
structure Batch (cmp : α → α → Ordering) (pushed passed : List α) (ended : Prop) : Prop where
  ascending : passed.Pairwise fun y z => cmp y z = .lt
  asked : ∀ y ∈ passed, y ∈ pushed
  whole : ended → ∀ x ∈ pushed, ∃ y ∈ passed, cmp x y = .eq

/-- What the loop has not passed yet. -/
def ahead (q : NotifyQueue cmp) : List α :=
  match q.consumer with
  | .passing rest | .calling rest => rest
  | .idle | .completing => []

/-- The consumer is in no pass. -/
def Over (q : NotifyQueue cmp) : Prop := q.consumer = .idle ∨ q.consumer = .completing

/-- Outside of a pass the private set is empty. -/
def Calm (q : NotifyQueue cmp) : Prop := q.Over → q.cache.isEmpty = true

omit [TransCmp cmp] in
theorem calm_next (ha : (notifyQueue cmp).enabled q a) (hthrow : a ≠ .throw) (h : Calm q) :
    Calm ((notifyQueue cmp).next q a) := by
  cases a with
  | push item => exact h
  | enter => simp [Calm, Over, notifyQueue]
  | call =>
    obtain ⟨item, rest, hq⟩ := ha
    simp [Calm, Over, notifyQueue, hq]
  | ret =>
    obtain ⟨rest, hq⟩ := ha
    simp [Calm, Over, notifyQueue, hq]
  | throw => exact absurd rfl hthrow
  | clear => exact fun _ => TreeSet.isEmpty_emptyc
  | complete | abort => exact fun _ => h (.inr ha)

omit [TransCmp cmp] in
theorem calm_exec (h : (notifyQueue cmp).Runs q as) (hthrow : .throw ∉ as) (hq : Calm q) :
    Calm ((notifyQueue cmp).exec q as) := by
  induction as generalizing q with
  | nil => exact hq
  | cons a as ih =>
    rw [List.mem_cons, not_or] at hthrow
    exact ih h.2 hthrow.2 (calm_next h.1 (Ne.symm hthrow.1) hq)

omit [TransCmp cmp] in
/-- What is passed is what the loop is no longer ahead of. -/
theorem passes_append_ahead (h : (notifyQueue cmp).Runs q as) (hthrow : .throw ∉ as)
    (henter : .enter ∉ as) : passes q as ++ ((notifyQueue cmp).exec q as).ahead = q.ahead := by
  induction as generalizing q with
  | nil => rfl
  | cons a as ih =>
    rw [List.mem_cons, not_or] at hthrow henter
    have hrest := ih h.2 hthrow.2 henter.2
    rw [Machine.exec_cons]
    cases a with
    | push item => exact hrest
    | enter => exact absurd rfl henter.1
    | call =>
      obtain ⟨item, rest, hq⟩ := h.1
      rw [passes, List.append_assoc, hrest]
      simp [nextItem, ahead, notifyQueue, hq]
    | ret =>
      obtain ⟨rest, hq⟩ := h.1
      refine hrest.trans ?_
      simp [ahead, notifyQueue, hq]
    | throw => exact absurd rfl hthrow.1
    | clear =>
      refine hrest.trans ?_
      rw [ahead, ahead, show q.consumer = .passing [] from h.1]
      rfl
    | complete | abort =>
      refine hrest.trans ?_
      rw [ahead, ahead, show q.consumer = .completing from h.1]
      rfl

/-- Between two swaps the pushed items gather. -/
theorem data_exec (h : (notifyQueue cmp).Runs q as) (henter : .enter ∉ as) :
    (∀ y ∈ ((notifyQueue cmp).exec q as).data.toList, y ∈ q.data.toList ∨ y ∈ pushes as) ∧
      ∀ x, x ∈ q.data ∨ x ∈ pushes as → x ∈ ((notifyQueue cmp).exec q as).data := by
  induction as generalizing q with
  | nil => exact ⟨fun y hy => .inl hy, fun x hx => hx.elim id (absurd · List.not_mem_nil)⟩
  | cons a as ih =>
    rw [List.mem_cons, not_or] at henter
    have hrest := ih h.2 henter.2
    rw [Machine.exec_cons]
    cases a with
    | push item =>
      have hpushes : pushes (.push item :: as) = item :: pushes as := rfl
      rw [hpushes]
      refine ⟨fun y hy => ?_, fun x hx => hrest.2 x ?_⟩
      · rcases hrest.1 y hy with hold | hnew
        · rcases OrderedSet.mem_toList_insert.1 hold with hold | ⟨-, rfl⟩
          · exact .inl hold
          · exact .inr List.mem_cons_self
        · exact .inr (List.mem_cons_of_mem _ hnew)
      · rcases hx with hold | hnew
        · exact .inl (TreeSet.mem_insert.2 (.inr hold))
        · rcases List.mem_cons.1 hnew with rfl | hnew
          · exact .inl TreeSet.mem_insert_self
          · exact .inr hnew
    | enter => exact absurd rfl henter.1
    | call =>
      obtain ⟨item, rest, hq⟩ := h.1
      simpa [pushes, notifyQueue, hq] using hrest
    | ret =>
      obtain ⟨rest, hq⟩ := h.1
      simpa [pushes, notifyQueue, hq] using hrest
    | throw | clear | complete | abort => exact hrest

/-- The schedule is empty or ends with a swap. -/
def EndsWithSwap (as : List (QueueAction α)) : Prop := as = [] ∨ ∃ init, as = init ++ [.enter]

omit [TransCmp cmp] in
theorem calm_start : Calm ({} : NotifyQueue cmp) := fun _ => TreeSet.isEmpty_emptyc

omit [TransCmp cmp] in
theorem exec_enter (h : (notifyQueue cmp).Runs {} (as ++ [.enter])) (hthrow : .throw ∉ as) :
    (notifyQueue cmp).exec {} (as ++ [.enter]) =
      { data := ((notifyQueue cmp).exec {} as).cache
        cache := ((notifyQueue cmp).exec {} as).data
        consumer := .passing ((notifyQueue cmp).exec {} as).data.toList } ∧
      ((notifyQueue cmp).exec {} as).cache.isEmpty = true := by
  obtain ⟨hruns, henabled, -⟩ := Machine.runs_append.1 h
  have hempty := calm_exec hruns hthrow calm_start (.inl henabled)
  rw [Machine.exec_append, Machine.exec_cons, Machine.exec_nil]
  exact ⟨next_enter_of_isEmpty hempty, hempty⟩

omit [TransCmp cmp] in
theorem data_of_endsWithSwap (h : (notifyQueue cmp).Runs {} as) (hthrow : .throw ∉ as)
    (hends : EndsWithSwap as) : ((notifyQueue cmp).exec {} as).data.isEmpty = true := by
  rcases hends with rfl | ⟨init, rfl⟩
  · exact TreeSet.isEmpty_emptyc
  · rw [List.mem_append, not_or] at hthrow
    obtain ⟨hexec, hempty⟩ := exec_enter h hthrow.1
    rw [hexec]
    exact hempty

theorem batch_of_runs {bs cs : List (QueueAction α)}
    (h : (notifyQueue cmp).Runs {} (as ++ bs ++ .enter :: cs))
    (hthrow : .throw ∉ as ++ bs ++ .enter :: cs) (hends : EndsWithSwap as) (hbs : .enter ∉ bs)
    (hcs : .enter ∉ cs) :
    Batch cmp (pushes bs) (passes ((notifyQueue cmp).exec {} (as ++ bs ++ [.enter])) cs)
      (Over ((notifyQueue cmp).exec {} (as ++ bs ++ .enter :: cs))) := by
  have hsplit : as ++ bs ++ .enter :: cs = as ++ bs ++ [.enter] ++ cs := List.append_cons ..
  rw [hsplit] at h hthrow ⊢
  obtain ⟨hswapped, hpass⟩ := Machine.runs_append.1 h
  obtain ⟨hruns, -⟩ := Machine.runs_append.1 hswapped
  obtain ⟨has, hgather⟩ := Machine.runs_append.1 hruns
  simp only [List.mem_append, not_or] at hthrow
  obtain ⟨⟨⟨hthrow₁, hthrow₂⟩, -⟩, hthrow₃⟩ := hthrow
  have hnone := data_of_endsWithSwap has hthrow₁ hends
  obtain ⟨hasked, hgathered⟩ := data_exec hgather hbs
  rw [← Machine.exec_append] at hasked hgathered
  have hexec := (exec_enter hswapped (by
    rw [List.mem_append, not_or]
    exact ⟨hthrow₁, hthrow₂⟩)).1
  have hpasses := passes_append_ahead hpass hthrow₃ hcs
  have hahead : ((notifyQueue cmp).exec {} (as ++ bs ++ [.enter])).ahead =
      ((notifyQueue cmp).exec {} (as ++ bs)).data.toList := by rw [hexec, ahead]
  rw [← Machine.exec_append, hahead] at hpasses
  refine ⟨?_, fun y hy => ?_, fun hover x hx => ?_⟩
  · have hordered :=
      TreeSet.ordered_toList (t := ((notifyQueue cmp).exec {} (as ++ bs)).data)
    rw [← hpasses] at hordered
    exact (List.pairwise_append.1 hordered).1
  · have hmem := List.mem_append_left ((notifyQueue cmp).exec {} (as ++ bs ++ [.enter] ++ cs)).ahead hy
    rw [hpasses] at hmem
    refine (hasked y hmem).resolve_left fun hold => ?_
    rw [OrderedSet.toList_of_isEmpty hnone] at hold
    exact absurd hold List.not_mem_nil
  · have hnil : ((notifyQueue cmp).exec {} (as ++ bs ++ [.enter] ++ cs)).ahead = [] := by
      rcases hover with hidle | hcompleting
      · rw [ahead, hidle]
      · rw [ahead, hcompleting]
    rw [hnil, List.append_nil] at hpasses
    rw [hpasses]
    exact OrderedSet.mem_iff.1 (hgathered x (.inr hx))

/-- What becomes of the items in a schedule: each is passed, or an equal of it, before the second
call of `process` that is completed behind its push, and without a throw each swap gives a batch. -/
structure LosesNothing (cmp : α → α → Ordering) (as : List (QueueAction α)) : Prop where
  passed : ∀ bs x cs, as = bs ++ .push x :: cs → 2 ≤ completions cs →
    ∃ ds y es, cs = ds ++ .call :: es ∧ completions ds ≤ 1 ∧
      ((notifyQueue cmp).exec {} (bs ++ .push x :: ds)).nextItem = some y ∧ cmp x y = .eq
  unasked : .throw ∉ as → ∀ bs cs, as = bs ++ cs → .enter ∉ bs →
    passes ({} : NotifyQueue cmp) bs = []
  batches : .throw ∉ as → ∀ init bs cs ds, as = init ++ bs ++ .enter :: cs ++ ds →
    EndsWithSwap init → .enter ∉ bs → .enter ∉ cs →
    Batch cmp (pushes bs) (passes ((notifyQueue cmp).exec {} (init ++ bs ++ [.enter])) cs)
      (Over ((notifyQueue cmp).exec {} (init ++ bs ++ .enter :: cs)))

end NotifyQueue

/-- **`NotifyQueue` loses nothing**, in every interleaving of pushes with the calls of `process`,
whichever calls of the processor throw. -/
theorem notifyQueue_losesNothing [TransCmp cmp] {as : List (QueueAction α)}
    (h : (notifyQueue cmp).Runs {} as) : LosesNothing cmp as where
  passed := by
    intro bs x cs has hcompletions
    rw [has, List.append_cons] at h
    obtain ⟨hpushed, hruns⟩ := Machine.runs_append.1 h
    obtain ⟨hbs, -⟩ := Machine.runs_append.1 hpushed
    have hcleared : Cleared ((notifyQueue cmp).exec {} (bs ++ [.push x])) :=
      hpushed.invariant (fun q a => cleared_next) fun _ => TreeSet.isEmpty_emptyc
    have hpending : Pending ((notifyQueue cmp).exec {} (bs ++ [.push x])) x 0 := by
      rw [Machine.exec_append]
      exact .inl TreeSet.mem_insert_self
    obtain ⟨ds, y, es, hcs, hle, hy, hxy⟩ :=
      passed_of_pending hruns hcleared hpending (by rwa [Nat.zero_add])
    rw [Nat.zero_add] at hle
    refine ⟨ds, y, es, hcs, hle, ?_, hxy⟩
    rw [List.append_cons, Machine.exec_append]
    exact hy
  unasked := by
    intro hthrow bs cs has henter
    rw [has] at h hthrow
    rw [List.mem_append, not_or] at hthrow
    have hpasses := passes_append_ahead (Machine.runs_append.1 h).1 hthrow.1 henter
    exact (List.append_eq_nil_iff.1 hpasses).1
  batches := by
    intro hthrow init bs cs ds has hends hbs hcs
    rw [has] at h hthrow
    rw [List.mem_append, not_or] at hthrow
    exact batch_of_runs (Machine.runs_append.1 h).1 hthrow.1 hends hbs hcs

/-- The processor throws at the first of two items and pushes again while the second pass goes on. -/
def throwing : List (QueueAction Nat) :=
  [.push 2, .push 1, .enter, .call, .throw, .enter, .call, .push 1, .ret, .call, .ret, .clear,
    .complete, .enter, .call, .ret, .clear, .complete]

theorem notifyQueue_losesNothing_throwing : LosesNothing compare throwing := by
  apply notifyQueue_losesNothing
  exact ⟨trivial, trivial, rfl, ⟨1, [2], rfl⟩, ⟨[2], rfl⟩, rfl, ⟨1, [2], rfl⟩, trivial, ⟨[2], rfl⟩,
    ⟨2, [], rfl⟩, ⟨[], rfl⟩, rfl, rfl, rfl, ⟨1, [], rfl⟩, ⟨[], rfl⟩, rfl, rfl, trivial⟩

end SNet.Utils
