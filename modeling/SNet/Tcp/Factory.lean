import Mathlib.Algebra.Ring.Nat
import SNet.Library.Machine
import SNet.Library.Registry

/-!
# Connection ids and the connections of a factory

The constructor of `TcpConnection` takes its id in two accesses to `connection_index`, an increment
and a read. Where the increment of another constructor falls between them both read one id, and the
second `TcpFactory::create` takes the connection of the first out of `connection_map`
(`ids_collide`). `distinctIds_of_steps` says that this is the only way in which ids collide while
`connection_index` does not come round to where it began.
-/

namespace SNet.Tcp

/-- `TcpFactory::add_connection` on a `connection_map`. -/
def addConnection {ν : Type*} (connectionMap : UInt64 → Option ν) (cid : UInt64) (conn : ν) :
    UInt64 → Option ν := Function.update connectionMap cid (some conn)

/-- `TcpFactory::remove_connection` on a `connection_map`. -/
def removeConnection {ν : Type*} (connectionMap : UInt64 → Option ν) (cid : UInt64) :
    UInt64 → Option ν := Function.update connectionMap cid none

/-- Where a thread stands in `TcpFactory::create`. A connection is known by the number of
constructors that incremented `connection_index` before its own. -/
inductive CreatePc
  | idle
  /-- In the constructor, between `connection_index++` and the read. -/
  | incremented (n : Nat)
  | constructed (n : Nat)
  deriving DecidableEq, Repr

def CreatePc.constructing : CreatePc → Bool
  | .incremented _ => true
  | .idle | .constructed _ => false

/-- The connections of one type and the factories that create them. -/
structure Factories where
  /-- A `std::atomic_int64_t`; `conn_id` takes its bits. -/
  connectionIndex : Int64 := 1024
  /-- How often `connection_index` was incremented. -/
  count : Nat := 0
  connId : Nat → Option UInt64 := fun _ => none
  threads : Nat → CreatePc := fun _ => .idle
  /-- The `connection_map` of every factory. -/
  connectionMap : Nat → UInt64 → Option Nat := fun _ _ => none
  /-- Which connections a factory created and has not removed. -/
  live : Nat → Nat → Bool := fun _ _ => false
  /-- The connections whose entry was overwritten. -/
  replaced : List Nat := []

inductive FactoryAction
  | increment (t : Nat)
  | readIndex (t n : Nat)
  | add (t f n : Nat)
  | remove (f n : Nat)

def Factories.setThread (s : Factories) (t : Nat) (pc : CreatePc) : Factories :=
  { s with threads := Function.update s.threads t pc }

/-- The steps of `create` and `release`. A constructor may also be called outside of `create`: the
thread then goes on to its next constructor. -/
def factories : Machine Factories FactoryAction where
  enabled s
    | .increment t => (s.threads t).constructing = false
    | .readIndex t n => s.threads t = .incremented n
    | .add t _ n => s.threads t = .constructed n
    | .remove _ n => (s.connId n).isSome
  next s
    | .increment t =>
      { s.setThread t (.incremented s.count) with
        connectionIndex := s.connectionIndex + 1, count := s.count + 1 }
    | .readIndex t n =>
      { s.setThread t (.constructed n) with
        connId := Function.update s.connId n (some s.connectionIndex.toUInt64) }
    | .add t f n =>
      match s.connId n with
      | none => s
      | some cid =>
        { s.setThread t .idle with
          connectionMap := Function.update s.connectionMap f (addConnection (s.connectionMap f) cid n)
          live := Function.update s.live f (Function.update (s.live f) n true)
          replaced := s.replaced ++ (s.connectionMap f cid).toList }
    | .remove f n =>
      match s.connId n with
      | none => s
      | some cid =>
        { s with
          connectionMap := Function.update s.connectionMap f (removeConnection (s.connectionMap f) cid)
          live := Function.update s.live f (Function.update (s.live f) n false) }

instance factories.decidableEnabled (s : Factories) : ∀ a, Decidable (factories.enabled s a)
  | .increment _ | .readIndex .. | .add .. | .remove .. => inferInstanceAs (Decidable (_ = _))

/-! ## The property and its condition -/

/-- No two connections have one id, no entry was ever overwritten, and the entries of a factory are
the connections that it created and has not removed, each under its id. -/
structure DistinctIds (s : Factories) : Prop where
  unique : ∀ m n cid, s.connId m = some cid → s.connId n = some cid → m = n
  replaced : s.replaced = []
  entries : ∀ f, Registry.Indexes (s.connectionMap f) (s.live f · = true) s.connId

/-- `connection_index` is incremented only while no other constructor is between its increment and
its read, and not more than `2 ^ 64` times. -/
def ReadsOwnIndex (s : Factories) : FactoryAction → Prop
  | .increment _ => (∀ u, (s.threads u).constructing = false) ∧ s.count < 2 ^ 64
  | _ => True

/-! ## Runs -/

variable {s : Factories} {a : FactoryAction} {as : List FactoryAction}

/-- The id that the `n`-th constructor is to read. -/
def cidOf (n : Nat) : UInt64 := 1024 + UInt64.ofNat (n + 1)

theorem cidOf_inj {m n : Nat} (hm : m < 2 ^ 64) (hn : n < 2 ^ 64) (h : cidOf m = cidOf n) :
    m = n := by
  have hmod : (1024 + (m + 1)) % 2 ^ 64 = (1024 + (n + 1)) % 2 ^ 64 := by
    simpa [cidOf] using congrArg UInt64.toNat h
  omega

/-- How the ids go with `connection_index`. -/
structure Numbered (s : Factories) : Prop where
  count : s.count ≤ 2 ^ 64
  index : s.connectionIndex.toUInt64 = 1024 + UInt64.ofNat s.count
  ids : ∀ n cid, s.connId n = some cid → n < s.count ∧ cid = cidOf n
  constructing : ∀ t n, s.threads t = .incremented n → n + 1 = s.count ∧ s.connId n = none ∧
    ∀ u m, s.threads u = .incremented m → u = t
  constructed : ∀ t n, s.threads t = .constructed n → (s.connId n).isSome ∧
    (∀ f, s.live f n = false) ∧ ∀ u, s.threads u = .constructed n → u = t
  live : ∀ f n, s.live f n = true → (s.connId n).isSome
  replaced : s.replaced = []
  entries : ∀ f, Registry.Indexes (s.connectionMap f) (s.live f · = true) s.connId

theorem Numbered.unique (h : Numbered s) {m n : Nat} {cid : UInt64} (hm : s.connId m = some cid)
    (hn : s.connId n = some cid) : m = n := by
  obtain ⟨hm, hcid⟩ := h.ids m cid hm
  obtain ⟨hn, heq⟩ := h.ids n cid hn
  rw [hcid] at heq
  exact cidOf_inj (Nat.lt_of_lt_of_le hm h.count) (Nat.lt_of_lt_of_le hn h.count) heq

theorem Numbered.distinctIds (h : Numbered s) : DistinctIds s :=
  ⟨fun _ _ _ => h.unique, h.replaced, h.entries⟩

theorem threads_setThread {t u : Nat} {pc pc' : CreatePc} (h : (s.setThread t pc).threads u = pc') :
    u = t ∧ pc' = pc ∨ u ≠ t ∧ s.threads u = pc' := by
  by_cases hut : u = t
  · subst hut
    exact .inl ⟨rfl, h.symm.trans (Function.update_self ..)⟩
  · exact .inr ⟨hut, (Function.update_of_ne hut ..).symm.trans h⟩

/-- A thread that leaves `.constructed` or stays out of it says nothing new about that of others. -/
theorem Numbered.constructed_of {t u n : Nat} {pc : CreatePc} (h : Numbered s)
    (hpc : ∀ n, pc ≠ .constructed n) (hu : (s.setThread t pc).threads u = .constructed n) :
    u ≠ t ∧ s.threads u = .constructed n ∧ (s.connId n).isSome ∧ (∀ f, s.live f n = false) ∧
      ∀ v, (s.setThread t pc).threads v = .constructed n → v = u := by
  rcases threads_setThread hu with ⟨-, hcase⟩ | ⟨hne, hcase⟩
  · exact absurd hcase.symm (hpc n)
  · obtain ⟨hsome, hlive, huniq⟩ := h.constructed u n hcase
    refine ⟨hne, hcase, hsome, hlive, fun v hv => ?_⟩
    rcases threads_setThread hv with ⟨-, hv⟩ | ⟨-, hv⟩
    · exact absurd hv.symm (hpc n)
    · exact huniq v hv

theorem Numbered.increment {t : Nat} (h : Numbered s) (hc : ReadsOwnIndex s (.increment t)) :
    Numbered (factories.next s (.increment t)) := by
  obtain ⟨hsole, hcount⟩ := hc
  have hnot : ∀ u n, s.threads u ≠ .incremented n := by
    intro u n hu
    have hother := hsole u
    rw [hu] at hother
    cases hother
  refine { h with count := hcount, index := ?_, ids := ?_, constructing := ?_, constructed := ?_ }
  · show (s.connectionIndex + 1).toUInt64 = 1024 + UInt64.ofNat (s.count + 1)
    rw [Int64.toUInt64_add, h.index, UInt64.ofNat_add, UInt64.add_assoc]
    rfl
  · exact fun n cid hn => (h.ids n cid hn).imp_left Nat.lt_succ_of_lt
  · intro u n hu
    rcases threads_setThread hu with ⟨hut, hn⟩ | ⟨-, hpc⟩
    · cases hn
      refine ⟨rfl, Option.eq_none_iff_forall_ne_some.2 fun cid hcid => ?_, fun v m hv => ?_⟩
      · exact Nat.lt_irrefl _ (h.ids _ cid hcid).1
      · rcases threads_setThread hv with ⟨hvt, -⟩ | ⟨-, hv⟩
        · exact hvt.trans hut.symm
        · exact absurd hv (hnot v m)
    · exact absurd hpc (hnot u n)
  · intro u n hu
    exact (h.constructed_of (fun n => (by rintro ⟨⟩)) hu).2.2

theorem Numbered.readIndex {t n : Nat} (h : Numbered s) (ht : s.threads t = .incremented n) :
    Numbered (factories.next s (.readIndex t n)) := by
  obtain ⟨hlast, hnone, hsole⟩ := h.constructing t n ht
  have hother : ∀ v cid, s.connId v = some cid → v ≠ n := by
    rintro v cid hv rfl
    cases hnone.symm.trans hv
  have hlive : ∀ f v, s.live f v = true → v ≠ n := by
    rintro f v hv rfl
    have hsome := h.live f v hv
    rw [hnone] at hsome
    cases hsome
  have hconn : ∀ v, v ≠ n → (factories.next s (.readIndex t n)).connId v = s.connId v :=
    fun v hv => Function.update_of_ne hv ..
  have hself : (factories.next s (.readIndex t n)).connId n = some (cidOf n) := by
    show Function.update s.connId n _ n = _
    rw [Function.update_self, h.index, ← hlast]
    rfl
  refine
    { h with ids := ?_, constructing := ?_, constructed := ?_, live := ?_, entries := ?_ }
  · intro v cid hv
    by_cases hvn : v = n
    · subst hvn
      exact ⟨hlast ▸ Nat.lt_succ_self v, Option.some.inj (hv.symm.trans hself)⟩
    · exact h.ids v cid ((hconn v hvn).symm.trans hv)
  · intro u v hu
    rcases threads_setThread hu with ⟨-, hv⟩ | ⟨hne, hpc⟩
    · cases hv
    · exact absurd (hsole u v hpc) hne
  · intro u v hu
    rcases threads_setThread hu with ⟨rfl, hv⟩ | ⟨-, hpc⟩
    · cases hv
      refine ⟨by rw [hself]; rfl, fun f => ?_, fun w hw => ?_⟩
      · exact Bool.eq_false_iff.2 fun hv => hlive f n hv rfl
      · rcases threads_setThread hw with ⟨hw, -⟩ | ⟨-, hw⟩
        · exact hw
        · have hsome := (h.constructed w n hw).1
          rw [hnone] at hsome
          cases hsome
    · obtain ⟨hsome, hfresh, huniq⟩ := h.constructed u v hpc
      have hvn : v ≠ n := by
        rintro rfl
        rw [hnone] at hsome
        cases hsome
      refine ⟨by rw [hconn v hvn]; exact hsome, hfresh, fun w hw => ?_⟩
      rcases threads_setThread hw with ⟨-, hw⟩ | ⟨-, hw⟩
      · cases hw
        exact absurd rfl hvn
      · exact huniq w hw
  · intro f v hv
    rw [hconn v (hlive f v hv)]
    exact h.live f v hv
  · exact fun f => (h.entries f).congr (fun _ => Iff.rfl) fun v hv => hconn v (hlive f v hv)

theorem Numbered.add {t f n : Nat} (h : Numbered s) (ht : s.threads t = .constructed n) :
    Numbered (factories.next s (.add t f n)) := by
  obtain ⟨hsome, hfresh, huniq⟩ := h.constructed t n ht
  obtain ⟨cid, hcid⟩ := Option.isSome_iff_exists.1 hsome
  have hnext : factories.next s (.add t f n) =
      { s.setThread t .idle with
        connectionMap := Function.update s.connectionMap f (addConnection (s.connectionMap f) cid n)
        live := Function.update s.live f (Function.update (s.live f) n true)
        replaced := s.replaced ++ (s.connectionMap f cid).toList } := by
    simp only [factories, hcid]
  have hnone : s.connectionMap f cid = none := by
    refine (h.entries f).eq_none fun v hv hkey => ?_
    rw [h.unique hkey hcid, hfresh f] at hv
    cases hv
  have hlive : ∀ g v, Function.update s.live f (Function.update (s.live f) n true) g v = true ↔
      s.live g v = true ∨ g = f ∧ v = n := by
    intro g v
    rw [Registry.update_update_apply]
    split
    · next he => exact iff_of_true rfl (.inr he)
    · next he => exact (or_iff_left he).symm
  rw [hnext]
  refine { h with constructing := ?_, constructed := ?_, live := ?_, replaced := ?_, entries := ?_ }
  · intro u m hu
    rcases threads_setThread hu with ⟨-, hpc⟩ | ⟨-, hpc⟩
    · cases hpc
    · obtain ⟨hlast, hnoid, hsole⟩ := h.constructing u m hpc
      refine ⟨hlast, hnoid, fun v k hv => ?_⟩
      rcases threads_setThread hv with ⟨-, hv⟩ | ⟨-, hv⟩
      · cases hv
      · exact hsole v k hv
  · intro u m hu
    obtain ⟨hne, hpc, hsome, hfresh, hsole⟩ := h.constructed_of (fun n => (by rintro ⟨⟩)) hu
    refine ⟨hsome, fun g => Bool.eq_false_iff.2 fun hv => ?_, hsole⟩
    rcases (hlive g m).1 hv with hv | ⟨-, rfl⟩
    · rw [hfresh g] at hv
      cases hv
    · exact hne (huniq u hpc)
  · intro g v hv
    rcases (hlive g v).1 hv with hv | ⟨-, rfl⟩
    · exact h.live g v hv
    · exact hsome
  · show s.replaced ++ (s.connectionMap f cid).toList = []
    rw [h.replaced, hnone]
    rfl
  · intro g
    show Registry.Indexes (Function.update s.connectionMap f _ g) _ s.connId
    by_cases hg : g = f
    · subst hg
      rw [Function.update_self]
      exact (h.entries g).insert hcid hnone fun v => (hlive g v).trans (by simp)
    · rw [Function.update_of_ne hg]
      exact (h.entries g).congr (fun v => (hlive g v).trans (by simp [hg])) fun _ _ => rfl

theorem Numbered.remove {f n : Nat} (h : Numbered s) (hn : (s.connId n).isSome) :
    Numbered (factories.next s (.remove f n)) := by
  obtain ⟨cid, hcid⟩ := Option.isSome_iff_exists.1 hn
  have hnext : factories.next s (.remove f n) =
      { s with
        connectionMap := Function.update s.connectionMap f (removeConnection (s.connectionMap f) cid)
        live := Function.update s.live f (Function.update (s.live f) n false) } := by
    simp only [factories, hcid]
  have hlive : ∀ g v, Function.update s.live f (Function.update (s.live f) n false) g v = true ↔
      s.live g v = true ∧ ¬ (g = f ∧ v = n) := by
    intro g v
    rw [Registry.update_update_apply]
    split
    · next he => exact iff_of_false Bool.false_ne_true fun hv => hv.2 he
    · next he => exact (and_iff_left he).symm
  rw [hnext]
  refine { h with constructed := ?_, live := ?_, entries := ?_ }
  · intro u m hu
    obtain ⟨hsome, hfresh, hsole⟩ := h.constructed u m hu
    refine ⟨hsome, fun g => Bool.eq_false_iff.2 fun hv => ?_, hsole⟩
    exact Bool.false_ne_true ((hfresh g).symm.trans ((hlive g m).1 hv).1)
  · exact fun g v hv => h.live g v ((hlive g v).1 hv).1
  · intro g
    show Registry.Indexes (Function.update s.connectionMap f _ g) _ s.connId
    by_cases hg : g = f
    · subst hg
      rw [Function.update_self]
      refine (h.entries g).erase (fun u _ => ⟨fun hu => h.unique hu hcid, ?_⟩) fun v => ?_
      · rintro rfl
        exact hcid
      · exact (hlive g v).trans (by simp)
    · rw [Function.update_of_ne hg]
      exact (h.entries g).congr (fun v => (hlive g v).trans (by simp [hg])) fun _ _ => rfl

theorem numbered_next (ha : factories.enabled s a) (hc : ReadsOwnIndex s a) (h : Numbered s) :
    Numbered (factories.next s a) := by
  cases a with
  | increment t => exact h.increment hc
  | readIndex t n => exact h.readIndex ha
  | add t f n => exact h.add ha
  | remove f n => exact h.remove ha

theorem numbered_start : Numbered {} := by
  refine ⟨Nat.zero_le _, rfl, ?_, ?_, ?_, ?_, rfl, fun f => Registry.indexes_empty ?_⟩
  · rintro n cid ⟨⟩
  · rintro t n ⟨⟩
  · rintro t n ⟨⟩
  · rintro f n ⟨⟩
  · rintro n ⟨⟩

/-- **Connection ids are unique** in every run in which no constructor increments `connection_index`
between the increment and the read of another one, and fewer than `2 ^ 64` have done so before. -/
theorem distinctIds_of_steps (h : factories.Runs {} as) (hc : factories.Steps ReadsOwnIndex {} as) :
    DistinctIds (factories.exec {} as) :=
  (h.invariant_of_steps (fun _ _ => numbered_next) hc numbered_start).distinctIds

/-- Two connections of one factory, of which the first is removed. -/
def oneByOne : List FactoryAction :=
  [.increment 0, .readIndex 0 0, .add 0 0 0, .increment 0, .readIndex 0 1, .add 0 0 1, .remove 0 0]

theorem distinctIds_of_steps_oneByOne : DistinctIds (factories.exec {} oneByOne) := by
  refine distinctIds_of_steps (by decide) ⟨⟨fun u => rfl, by decide⟩, trivial, trivial, ⟨?_, by decide⟩,
    trivial, trivial, trivial, trivial⟩
  intro u
  by_cases hu : u = 0
  · subst hu
    rfl
  · have hidle : (factories.exec {} [.increment 0, .readIndex 0 0, .add 0 0 0]).threads u = .idle :=
      (Function.update_of_ne hu ..).trans
        ((Function.update_of_ne hu ..).trans (Function.update_of_ne hu ..))
    exact congrArg CreatePc.constructing hidle

/-- A listener and a connector construct a connection each; the increments fall together. -/
theorem ids_collide : ¬ ∀ as : List FactoryAction, factories.Runs {} as →
    DistinctIds (factories.exec {} as) := by
  intro h
  have hdistinct := h [.increment 0, .increment 1, .readIndex 0 0, .readIndex 1 1, .add 0 0 0,
    .add 1 0 1] (by decide)
  exact absurd (hdistinct.unique 0 1 1026 (by decide) (by decide)) (by decide)

end SNet.Tcp
