import Mathlib.Data.List.Nodup
import SNet.Utils.LoopBufferThreads

/-!
# The loop buffer is linearizable

What the threads of `LoopBufferThreads` have done so far fits the queue that the buffer holds
(`Meets`): a push in progress stores behind the queue only, a handler is given bytes at its front
only, and each side relies on the counter of the other being no further than it was seen. So every
interleaving looks like the bounded queue of one thread (`threads_linearizable`), and no byte is
stored to that another thread may be loading (`threads_raceFree`).
-/

namespace SNet.Utils

open Memory Machine

variable {S : BufferSize} {P : Type*} [DecidableEq P]

/-! ## Cells -/

namespace LoopBuffer

variable {b : LoopBuffer S} {dataLen : UInt32} {i : Nat}

theorem target_eq (hlen : dataLen.toNat ≤ S.cap) (hi : i < dataLen.toNat) :
    b.target dataLen i = (b.tail.toNat + i) % S.cap := by
  have hwrap : S.val - (b.tail &&& (S.val - 1)) < dataLen ↔
      S.cap - b.tail.toNat % S.cap < dataLen.toNat := by
    rw [UInt32.lt_iff_toNat_lt, Holds.toNat_rest]
  have hlt := Nat.mod_lt b.tail.toNat S.cap_pos
  rw [add_mod_ring (Nat.lt_of_lt_of_le hi hlen), target]
  rw [Holds.toNat_rest, S.toNat_and_mask]
  by_cases hfar : b.tail.toNat % S.cap + i < S.cap
  · rw [if_pos hfar]
    split
    · exact if_pos (by omega)
    · rfl
  · rw [if_neg hfar, if_pos (hwrap.2 (by omega)), if_neg (by omega)]
    omega

theorem origin_eq (hi : b.head.toNat % S.cap + i < S.cap) :
    b.origin i = (b.head.toNat + i) % S.cap := by
  have hcap := Nat.lt_of_le_of_lt (Nat.le_add_left i _) hi
  rw [origin, S.toNat_and_mask, add_mod_ring hcap, if_pos hi]

end LoopBuffer

namespace Holds

variable {b : LoopBuffer S} {q : BoundedQueue UInt8 S.cap} {i j : Nat}

theorem getElem?_items (h : Holds b q) (hi : i < q.items.length) :
    q.items[i]? = some (b.buffer ((b.head.toNat + i) % S.cap)) := by
  rw [h.items, getElem?_ring hi]

/-- The place behind the queue, seen from its front. -/
theorem tail_cell (h : Holds b q) :
    (b.tail.toNat + i) % S.cap = (b.head.toNat + (q.items.length + i)) % S.cap := by
  rw [Nat.add_mod, h.tail, S.toNat_add_mod, toNat_length, ← Nat.add_mod, Nat.add_assoc]

/-- A free cell holds no byte of the queue. -/
theorem free_cell_ne (h : Holds b q) (hi : q.items.length + i < S.cap) (hj : j < q.items.length) :
    (b.head.toNat + j) % S.cap ≠ (b.tail.toNat + i) % S.cap := by
  rw [h.tail_cell]
  exact add_mod_ne (by omega) (by omega)

/-- A byte that is stored to a free cell is not seen. -/
theorem update_free (h : Holds b q) {v : UInt8} (hi : q.items.length + i < S.cap) :
    Holds { b with buffer := Function.update b.buffer ((b.tail.toNat + i) % S.cap) v } q :=
  ⟨h.tail, h.items.trans (ring_update_of_ne fun _ hj => h.free_cell_ne hi hj).symm⟩

/-- The bytes behind the queue belong to it when `tail` is stored. -/
theorem extend (h : Holds b q) {data : Nat → UInt8} {dataLen : UInt32}
    (hfit : q.items.length + (slice data 0 dataLen.toNat).length ≤ S.cap)
    (hcells : ∀ i < dataLen.toNat, b.buffer ((b.tail.toNat + i) % S.cap) = data i) :
    Holds { b with tail := b.tail + dataLen } (q.append (slice data 0 dataLen.toNat) hfit) := by
  have hlen : (q.append (slice data 0 dataLen.toNat) hfit).items.length =
      q.items.length + dataLen.toNat := by
    rw [BoundedQueue.append, List.length_append, length_slice]
  constructor
  · rw [hlen, UInt32.ofNat_add, UInt32.ofNat_toNat, ← UInt32.add_assoc, ← h.tail]
  · have hnew : ring b.buffer S.cap (b.head.toNat + q.items.length) dataLen.toNat =
        slice data 0 dataLen.toNat := by
      apply List.map_congr_left
      intro i hi
      rw [Nat.add_assoc, ← h.tail_cell, hcells i (List.mem_range.1 hi), Nat.zero_add]
    rw [hlen, ring_add, ← h.items, hnew]
    rfl

end Holds

/-! ## What holds between accesses -/

/-- What a push in progress has stored. -/
structure Stored (b : LoopBuffer S) (q : BoundedQueue UInt8 S.cap) (data : Nat → UInt8)
    (dataLen : UInt32) (todo : List Nat) : Prop where
  fits : q.items.length + dataLen.toNat ≤ S.cap
  nodup : todo.Nodup
  lt : ∀ i ∈ todo, i < dataLen.toNat
  cells : ∀ i < dataLen.toNat, i ∉ todo → b.buffer ((b.tail.toNat + i) % S.cap) = data i

/-- What a handler has loaded so far. -/
structure Fetched (head : UInt32) (q : BoundedQueue UInt8 S.cap) (c : Showing) (len : UInt32)
    (todo : List Nat) (got : Nat → UInt8) : Prop where
  pos : 0 < len.toNat
  front : len.toNat ≤ q.items.length
  flat : head.toNat % S.cap + len.toNat ≤ S.cap
  limit : ∀ l, c = .read l → 0 < l → len.toNat ≤ l.toNat
  nodup : todo.Nodup
  lt : ∀ i ∈ todo, i < len.toNat
  got : ∀ i < len.toNat, i ∉ todo → q.items[i]? = some (got i)

def Writer.Inside : Writer → Prop
  | .idle | .waiting _ => False
  | .entered _ | .copying .. | .leaving .. => True

def Writer.Keeps (b : LoopBuffer S) (q : BoundedQueue UInt8 S.cap) : Writer → Prop
  | .copying data dataLen todo => Stored b q data dataLen todo
  | .idle | .waiting _ | .entered _ | .leaving .. => True

def Reader.Keeps (head : UInt32) (q : BoundedQueue UInt8 S.cap) (exposed : Nat) : Reader → Prop
  | .fetching c len todo got => Fetched head q c len todo got
  | .committing len => len.toNat ≤ exposed
  | .idle | .entered _ | .leaving .. => True

/-- One thread at most is under the lock, and it is the one that the mutex knows. -/
structure Exclusive (kind : MutexKind) (owner : Option P) (writers : P → Writer) : Prop where
  alone : ∀ p p', (writers p).Inside → (writers p').Inside → p = p'
  owner : kind = .mutex → ∀ p, (writers p).Inside → owner = some p

/-- The invariant: the buffer holds a queue, and what the threads have done so far is right for this
queue. -/
structure Meets (kind : MutexKind) (s : Threads S P) (q : BoundedQueue UInt8 S.cap) : Prop where
  holds : Holds s.buf q
  exclusive : Exclusive kind s.owner s.writers
  writers : ∀ p, (s.writers p).Keeps s.buf q
  reader : s.reader.Keeps s.buf.head q s.exposed
  exposed : s.exposed ≤ q.items.length

/-- Without a mutex one thread alone may push. -/
def Guarded (kind : MutexKind) (P : Type*) : Prop :=
  match kind with
  | .mutex => True
  | .nonMutex => Subsingleton P

theorem Writer.keeps_of_not_inside {b : LoopBuffer S} {q : BoundedQueue UInt8 S.cap} {w : Writer}
    (h : ¬ w.Inside) : w.Keeps b q := by
  cases w with
  | idle | waiting _ => trivial
  | entered _ | copying _ _ _ | leaving _ _ => exact absurd trivial h

namespace Exclusive

variable {kind : MutexKind} {owner : Option P} {writers : P → Writer} {p : P} {w : Writer}

omit [DecidableEq P] in
theorem of_only (honly : ∀ p', (writers p').Inside → p' = p)
    (howner : kind = .mutex → owner = some p) : Exclusive kind owner writers where
  alone p₁ p₂ h₁ h₂ := (honly p₁ h₁).trans (honly p₂ h₂).symm
  owner hk p' h' := (howner hk).trans (congrArg some (honly p' h').symm)

omit [DecidableEq P] in
theorem outside (h : Exclusive kind owner writers) (hp : (writers p).Inside) :
    ∀ p' ≠ p, ¬ (writers p').Inside := fun p' hne hp' => hne (h.alone p' p hp' hp)

/-- The other threads are not under the lock. -/
theorem only_update (hnone : ∀ p' ≠ p, ¬ (writers p').Inside) :
    ∀ p', (Function.update writers p w p').Inside → p' = p :=
  (Function.forall_update_iff writers fun p' v => v.Inside → p' = p).2
    ⟨fun _ => rfl, fun p' hne hp' => absurd hp' (hnone p' hne)⟩

/-- A thread goes on that is under the lock if it then is. -/
theorem update (h : Exclusive kind owner writers) (hin : w.Inside → (writers p).Inside) :
    Exclusive kind owner (Function.update writers p w) := by
  have hinside : ∀ p', (Function.update writers p w p').Inside → (writers p').Inside :=
    (Function.forall_update_iff writers fun p' v => v.Inside → (writers p').Inside).2
      ⟨hin, fun _ _ => id⟩
  exact ⟨fun p₁ p₂ h₁ h₂ => h.alone p₁ p₂ (hinside p₁ h₁) (hinside p₂ h₂),
    fun hk p' h' => h.owner hk p' (hinside p' h')⟩

end Exclusive

namespace Meets

variable {kind : MutexKind} {s : Threads S P} {q : BoundedQueue UInt8 S.cap} {p : P}

/-- A thread goes on that is under the lock if it then is. -/
theorem setWriter (h : Meets kind s q) {w : Writer} (hin : w.Inside → (s.writers p).Inside)
    (hw : w.Keeps s.buf q) : Meets kind (s.setWriter p w) q :=
  { h with
    exclusive := h.exclusive.update hin
    writers := (Function.forall_update_iff s.writers fun _ v => v.Keeps s.buf q).2
      ⟨hw, fun p' _ => h.writers p'⟩ }

omit [DecidableEq P] in
theorem setReader (h : Meets kind s q) {r : Reader} (hr : r.Keeps s.buf.head q s.exposed) :
    Meets kind { s with reader := r } q := { h with reader := hr }

/-- A thread that gets the lock finds no other one under it. -/
theorem lock (hg : Guarded kind P) (h : Meets kind s q) (hfree : s.isFree kind = true)
    {c : Locked} : Meets kind ((s.take kind p).setWriter p (.entered c)) q := by
  have hwriters := (Function.forall_update_iff (a := p) (b := .entered c) s.writers
    fun _ v => v.Keeps s.buf q).2 ⟨trivial, fun p' _ => h.writers p'⟩
  cases kind with
  | mutex =>
    have hnone : ∀ p' ≠ p, ¬ (s.writers p').Inside := by
      intro p' _ hp'
      rw [Threads.isFree, h.exclusive.owner rfl p' hp'] at hfree
      cases hfree
    exact { h with
      exclusive := .of_only (Exclusive.only_update hnone) fun _ => rfl
      writers := hwriters }
  | nonMutex =>
    exact { h with
      exclusive := .of_only (fun p' _ => hg.elim p' p) nofun
      writers := hwriters }

theorem unlock (h : Meets kind s q) (hp : (s.writers p).Inside) :
    Meets kind ((s.release kind).setWriter p .idle) q := by
  cases kind with
  | nonMutex => exact h.setWriter (fun hin => hin.elim) trivial
  | mutex =>
    have hnone := (Function.forall_update_iff (a := p) (b := .idle) s.writers
      fun _ v => ¬ v.Inside).2 ⟨id, h.exclusive.outside hp⟩
    exact { h with
      exclusive := ⟨fun p' _ h' _ => absurd h' (hnone p'), fun _ p' h' => absurd h' (hnone p')⟩
      writers := fun p' => Writer.keeps_of_not_inside (hnone p') }

/-- A byte is stored behind the queue. -/
theorem store (h : Meets kind s q) {data : Nat → UInt8} {dataLen : UInt32} {todo : List Nat}
    {i : Nat} (hw : s.writers p = .copying data dataLen todo) (hi : i ∈ todo) :
    Meets kind
      ({ s with
        buf := { s.buf with
          buffer := Function.update s.buf.buffer (s.buf.target dataLen i) (data i) } }.setWriter p
        (.copying data dataLen (todo.erase i))) q := by
  have hstored : Stored s.buf q data dataLen todo := by
    have := h.writers p
    rwa [hw] at this
  have hp : (s.writers p).Inside := hw ▸ trivial
  have hlt := hstored.lt i hi
  have hfits := hstored.fits
  rw [LoopBuffer.target_eq (by omega) hlt]
  refine { h with
    holds := h.holds.update_free (by omega)
    exclusive := h.exclusive.update fun _ => hp
    writers := (Function.forall_update_iff s.writers fun _ v => Writer.Keeps _ q v).2 ⟨?_, ?_⟩ }
  · refine { hstored with nodup := hstored.nodup.erase i, lt := ?_, cells := ?_ }
    · exact fun j hj => hstored.lt j (List.mem_of_mem_erase hj)
    · intro j hj hdone
      by_cases hji : j = i
      · subst hji
        exact Function.update_self ..
      · have hcell : (s.buf.tail.toNat + j) % S.cap ≠ (s.buf.tail.toNat + i) % S.cap := by
          rcases Nat.lt_or_gt_of_ne hji with hlt' | hlt'
          · exact add_mod_ne hlt' (by omega)
          · exact (add_mod_ne hlt' (by omega)).symm
        have hrest : j ∉ todo := fun hmem => hdone ((List.mem_erase_of_ne hji).2 hmem)
        exact (Function.update_of_ne hcell ..).trans (hstored.cells j hj hrest)
  · exact fun p' hne => Writer.keeps_of_not_inside (h.exclusive.outside hp p' hne)

/-- The bytes of a push are published. -/
theorem storeTail (h : Meets kind s q) {data : Nat → UInt8} {dataLen : UInt32} {a : Answer}
    {c : Locked} (hw : s.writers p = .copying data dataLen []) :
    ∃ hfit, Meets kind
      ({ s with buf := { s.buf with tail := s.buf.tail + dataLen } }.setWriter p (.leaving c a))
      (q.append (slice data 0 dataLen.toNat) hfit) := by
  have hstored : Stored s.buf q data dataLen [] := by
    have := h.writers p
    rwa [hw] at this
  have hp : (s.writers p).Inside := hw ▸ trivial
  have hfit : q.items.length + (slice data 0 dataLen.toNat).length ≤ S.cap := by
    rw [length_slice]
    exact hstored.fits
  have hle : q.items.length ≤ (q.append (slice data 0 dataLen.toNat) hfit).items.length := by
    rw [BoundedQueue.append, List.length_append]
    exact Nat.le_add_right _ _
  refine ⟨hfit, ?_, h.exclusive.update fun _ => hp, ?_, ?_, Nat.le_trans h.exposed hle⟩
  · exact h.holds.extend hfit fun i hi => hstored.cells i hi List.not_mem_nil
  · exact (Function.forall_update_iff s.writers fun _ v => Writer.Keeps _ _ v).2
      ⟨trivial, fun p' hne => Writer.keeps_of_not_inside (h.exclusive.outside hp p' hne)⟩
  · have hreader := h.reader
    show Reader.Keeps s.buf.head _ s.exposed s.reader
    cases hr : s.reader with
    | fetching c len todo got =>
      rw [hr] at hreader
      refine { hreader with front := Nat.le_trans hreader.front hle, got := ?_ }
      intro i hi hdone
      rw [BoundedQueue.append, List.getElem?_append_left (Nat.lt_of_lt_of_le hi hreader.front)]
      exact hreader.got i hi hdone
    | committing len =>
      rw [hr] at hreader
      exact hreader
    | idle | entered _ | leaving _ _ => trivial

omit [DecidableEq P] in
/-- The reading thread gives bytes at the front back. -/
theorem storeHead (h : Meets kind s q) {len : UInt32} {exposed : Nat} {c : Call} {a : Answer}
    (hlen : len.toNat ≤ q.items.length) (hexp : exposed ≤ q.items.length - len.toNat) :
    Meets kind
      { s with
        buf := { s.buf with head := s.buf.head + len }
        exposed := exposed
        reader := .leaving c a } (q.drop len.toNat) := by
  have hdrop : (q.drop len.toNat).items.length = q.items.length - len.toNat := List.length_drop
  refine ⟨h.holds.advance hlen, h.exclusive, ?_, trivial, hdrop ▸ hexp⟩
  intro p'
  have hw := h.writers p'
  show Writer.Keeps { s.buf with head := s.buf.head + len } _ (s.writers p')
  cases hp : s.writers p' with
  | copying data dataLen todo =>
    rw [hp] at hw
    refine { hw with fits := ?_ }
    have := hw.fits
    omega
  | idle | waiting _ | entered _ | leaving _ _ => trivial

end Meets

namespace Fetched

variable {b : LoopBuffer S} {q : BoundedQueue UInt8 S.cap} {c : Showing} {len : UInt32}
  {todo : List Nat} {got : Nat → UInt8}

theorem shown_le : (b.shown c).toNat ≤ (Holds.segment b).toNat := by
  cases c with
  | pop => exact le_rfl
  | read limit =>
    rw [LoopBuffer.shown]
    split
    · rw [Holds.toNat_min]
      exact Nat.min_le_left _ _
    · exact le_rfl

theorem shown_pos (hpos : 0 < (Holds.segment b).toNat) : 0 < (b.shown c).toNat := by
  cases c with
  | pop => exact hpos
  | read limit =>
    rw [LoopBuffer.shown]
    split
    · next hlimit =>
      rw [Holds.toNat_min]
      exact Nat.lt_min.2 ⟨hpos, hlimit⟩
    · exact hpos

theorem shown_limit {l : UInt32} (hc : c = .read l) (hl : 0 < l) : (b.shown c).toNat ≤ l.toNat := by
  subst hc
  rw [LoopBuffer.shown, if_pos hl, Holds.toNat_min]
  exact Nat.min_le_right _ _

/-- What a handler is given when `tail` is loaded. -/
theorem start (h : Holds b q) (hne : q.items ≠ []) :
    Fetched b.head q c (b.shown c) (List.range (b.shown c).toNat) got := by
  have hseg := h.toNat_segment
  have hle : (b.shown c).toNat ≤ (Holds.segment b).toNat := shown_le
  have hlt := Nat.mod_lt b.head.toNat S.cap_pos
  exact
    { pos := shown_pos (h.segment_pos hne)
      front := by omega
      flat := by omega
      limit := fun l => shown_limit
      nodup := List.nodup_range
      lt := fun i => List.mem_range.1
      got := fun i hi hdone => absurd (List.mem_range.2 hi) hdone }

/-- A byte is loaded. -/
theorem load (h : Fetched b.head q c len todo got) (hb : Holds b q) {i : Nat} (hi : i ∈ todo) :
    Fetched b.head q c len (todo.erase i) (Function.update got i (b.buffer (b.origin i))) := by
  have hlt := h.lt i hi
  have hflat := h.flat
  refine { h with nodup := h.nodup.erase i, lt := ?_, got := ?_ }
  · exact fun j hj => h.lt j (List.mem_of_mem_erase hj)
  · intro j hj hdone
    by_cases hji : j = i
    · subst hji
      rw [Function.update_self, LoopBuffer.origin_eq (by omega)]
      exact hb.getElem?_items (Nat.lt_of_lt_of_le hj h.front)
    · rw [Function.update_of_ne hji]
      exact h.got j hj fun hmem => hdone ((List.mem_erase_of_ne hji).2 hmem)

/-- All bytes are loaded: they are the front of the queue. -/
theorem slice_got (h : Fetched b.head q c len [] got) :
    slice got 0 len.toNat = q.items.take len.toNat := by
  have hlen : (q.items.take len.toNat).length = len.toNat :=
    List.length_take.trans (Nat.min_eq_left h.front)
  refine List.ext_getElem? fun i => ?_
  rcases Nat.lt_or_ge i len.toNat with hi | hi
  · rw [List.getElem?_take_of_lt hi, h.got i hi List.not_mem_nil]
    simp [slice, hi]
  · rw [List.getElem?_eq_none (length_slice.trans_le hi), List.getElem?_eq_none (hlen.trans_le hi)]

theorem take_ne_nil (h : Fetched b.head q c len [] got) : q.items.take len.toNat ≠ [] := by
  have hpos := h.pos
  have hfront := h.front
  intro hnil
  have := congrArg List.length hnil
  rw [List.length_take, List.length_nil] at this
  omega

/-- What a `pop` and a `read` answer with the bytes that they have loaded. -/
theorem pop_spec (h : Fetched b.head q .pop len [] got) :
    q.Spec .pop (.popped (slice got 0 len.toNat) len) (q.drop len.toNat) := by
  rw [h.slice_got]
  refine ⟨(List.take_append_drop _ _).symm, fun hnil => absurd hnil h.take_ne_nil, ?_⟩
  rw [List.length_take, Nat.min_eq_left h.front]

theorem read_spec {limit : UInt32} (h : Fetched b.head q (.read limit) len [] got) :
    q.Spec (.read limit) (.read (slice got 0 len.toNat) len.toInt32) q := by
  rw [h.slice_got]
  refine ⟨rfl, List.take_prefix _ _, fun hnil => absurd hnil h.take_ne_nil, fun hl => ?_, ?_⟩
  · rw [List.length_take, Nat.min_eq_left h.front]
    exact h.limit limit rfl hl
  · rw [List.length_take, Nat.min_eq_left h.front, UInt32.ofNat_toNat]

end Fetched

/-- Nothing is handed out when there is nothing. -/
theorem nothing_spec {q : BoundedQueue UInt8 S.cap} (hnil : q.items = []) (c : Showing) :
    q.Spec c.toCall c.nothing q := by
  cases c with
  | pop => exact ⟨rfl, fun _ => hnil, rfl⟩
  | read limit => exact ⟨rfl, List.nil_prefix, fun _ => hnil, fun _ => Nat.zero_le _, rfl⟩

/-- What is answered at once is what a queue answers that stays as it is. -/
theorem Immediate.spec {b : LoopBuffer S} {q : BoundedQueue UInt8 S.cap} {c : Locked} {a : Answer}
    (hb : Holds b q) (h : Immediate b c a) : q.Spec c.toCall a q := by
  cases h with
  | full hfull =>
    rw [Locked.toCall, BoundedQueue.Spec, if_neg (hb.peek_lt_iff.1 hfull)]
    exact ⟨rfl, rfl⟩
  | empty =>
    refine ⟨rfl, ?_⟩
    rw [LoopBuffer.empty, beq_iff_eq, ← hb.dataLen_eq_zero, UInt32.sub_eq_iff_eq_add,
      UInt32.zero_add]
    exact eq_comm
  | size => exact ⟨rfl, hb.toNat_dataLen⟩
  | peek =>
    refine ⟨rfl, ?_⟩
    rw [LoopBuffer.peek, hb.toNat_bufLen]
    exact Nat.add_sub_of_le q.bound

namespace Meets

variable {kind : MutexKind} {s : Threads S P} {q : BoundedQueue UInt8 S.cap} {p : P}

/-- A call has its answer, or a push begins to copy. -/
theorem loadHead (h : Meets kind s q) {s' : Threads S P} {es : List (Option P × Stage Call Answer)}
    (hs : s.step kind (.loadHead p) = some (s', es)) :
    ∃ q', Allowed BoundedQueue.Spec q (effects es) q' ∧ Meets kind s' q' := by
  obtain ⟨c, a, hw, himm, rfl, rfl⟩ | ⟨data, dataLen, hw, hfits, rfl, rfl⟩ :=
    Threads.step_loadHead hs
  · exact ⟨q, .single (himm.spec h.holds), h.setWriter (fun _ => hw ▸ trivial) trivial⟩
  · refine ⟨q, .nil, h.setWriter (fun _ => hw ▸ trivial) ?_⟩
    exact
      { fits := not_not.1 (mt h.holds.peek_lt_iff.2 hfits)
        nodup := List.nodup_range
        lt := fun i => List.mem_range.1
        cells := fun i hi hdone => absurd (List.mem_range.2 hi) hdone }

/-- There is nothing to show, or its bytes are the first of the queue. -/
theorem loadTail (h : Meets kind s q) {s' : Threads S P} {es : List (Option P × Stage Call Answer)}
    (hs : s.step kind .loadTail = some (s', es)) :
    ∃ q', Allowed BoundedQueue.Spec q (effects es) q' ∧ Meets kind s' q' := by
  obtain ⟨c, -, ⟨hzero, rfl, rfl⟩ | ⟨hzero, rfl, rfl⟩⟩ := Threads.step_loadTail hs
  · exact ⟨q, .single (nothing_spec (h.holds.dataLen_eq_zero.1 hzero) c), h.setReader trivial⟩
  · exact ⟨q, .nil, h.setReader (.start h.holds (mt h.holds.dataLen_eq_zero.2 hzero))⟩

/-- A reading call ends, with the bytes that were at the front. -/
theorem finish (h : Meets kind s q) {s' : Threads S P} {es : List (Option P × Stage Call Answer)}
    (hs : s.step kind .finish = some (s', es)) :
    ∃ q', Allowed BoundedQueue.Spec q (effects es) q' ∧ Meets kind s' q' := by
  have hreader := h.reader
  obtain ⟨len, got, hr, rfl, rfl⟩ | ⟨limit, len, got, hr, rfl, rfl⟩ | ⟨len, hr, rfl, rfl⟩ :=
    Threads.step_finish hs
  · rw [hr] at hreader
    exact ⟨_, .single hreader.pop_spec, h.storeHead hreader.front (Nat.zero_le _)⟩
  · rw [hr] at hreader
    exact ⟨q, .single hreader.read_spec, { h with reader := trivial, exposed := hreader.front }⟩
  · rw [hr] at hreader
    refine ⟨_, .single ⟨rfl, rfl⟩, h.storeHead (Nat.le_trans hreader h.exposed) ?_⟩
    exact Nat.sub_le_sub_right h.exposed _

/-- **The step lemma.** Every access keeps the invariant, with the queue that its effects lead to. -/
theorem step (hg : Guarded kind P) (h : Meets kind s q) {a : Access P} {s' : Threads S P}
    {es : List (Option P × Stage Call Answer)} (hs : s.step kind a = some (s', es)) :
    ∃ q', Allowed BoundedQueue.Spec q (effects es) q' ∧ Meets kind s' q' := by
  cases a with
  | call p c =>
    obtain ⟨-, rfl, rfl⟩ := Threads.step_call hs
    exact ⟨q, .nil, h.setWriter (fun hin => hin.elim) trivial⟩
  | lock p =>
    obtain ⟨c, -, hfree, rfl, rfl⟩ := Threads.step_lock hs
    exact ⟨q, .nil, h.lock hg hfree⟩
  | loadHead p => exact h.loadHead hs
  | store p i =>
    obtain ⟨data, dataLen, todo, hw, hi, rfl, rfl⟩ := Threads.step_store hs
    exact ⟨q, .nil, h.store hw hi⟩
  | storeTail p =>
    obtain ⟨data, dataLen, hw, rfl, rfl⟩ := Threads.step_storeTail hs
    obtain ⟨hfit, hmeets⟩ := h.storeTail hw
    refine ⟨_, .single ?_, hmeets⟩
    rw [BoundedQueue.Spec, if_pos (by rwa [length_slice] at hfit)]
    exact ⟨rfl, rfl⟩
  | unlock p =>
    obtain ⟨c, a, hw, rfl, rfl⟩ := Threads.step_unlock hs
    exact ⟨q, .nil, h.unlock (hw ▸ trivial)⟩
  | enter c =>
    obtain ⟨-, rfl, rfl⟩ := Threads.step_enter hs
    exact ⟨q, .nil, h.setReader trivial⟩
  | commit len =>
    obtain ⟨-, hlen, rfl, rfl⟩ := Threads.step_commit hs
    exact ⟨q, .nil, h.setReader hlen⟩
  | loadTail => exact h.loadTail hs
  | load i =>
    obtain ⟨c, len, todo, got, hr, hi, rfl, rfl⟩ := Threads.step_load hs
    have hfetched := h.reader
    rw [hr] at hfetched
    exact ⟨q, .nil, h.setReader (hfetched.load h.holds hi)⟩
  | finish => exact h.finish hs
  | leave =>
    obtain ⟨c, a, -, rfl, rfl⟩ := Threads.step_leave hs
    exact ⟨q, .nil, h.setReader trivial⟩

end Meets

/-! ## Runs -/

/-- An empty buffer with counters of some value, and no call begun. -/
def Threads.start (counter : UInt32) (buffer : Nat → UInt8) : Threads S P where
  buf := ⟨counter, counter, buffer⟩

section

variable {kind : MutexKind} {counter : UInt32} {buffer : Nat → UInt8} {as : List (Access P)}

omit [DecidableEq P] in
theorem meets_start :
    Meets kind (Threads.start counter buffer : Threads S P) (.nil : BoundedQueue UInt8 S.cap) where
  holds := ⟨(UInt32.add_zero counter).symm, rfl⟩
  exclusive := ⟨fun _ _ h => h.elim, fun _ _ h => h.elim⟩
  writers _ := trivial
  reader := trivial
  exposed := Nat.zero_le _

/-- An access that is enabled is a step. -/
theorem step_of_enabled {s : Threads S P} {a : Access P} (h : (threads S P kind).enabled s a) :
    s.step kind a = some ((threads S P kind).next s a, stages kind s a) := by
  obtain ⟨r, hr⟩ := Option.isSome_iff_exists.1 h
  have hnext : (threads S P kind).next s a = r.1 := by
    show ((s.step kind a).map (·.1)).getD s = r.1
    rw [hr]
    rfl
  have hstages : stages kind s a = r.2 := by
    rw [stages, hr]
    rfl
  rw [hr, hnext, hstages]

theorem Meets.next (hg : Guarded kind P) {s : Threads S P} {q : BoundedQueue UInt8 S.cap}
    {a : Access P} (ha : (threads S P kind).enabled s a) (h : Meets kind s q) :
    ∃ q', Allowed BoundedQueue.Spec q (effects (stages kind s a)) q' ∧
      Meets kind ((threads S P kind).next s a) q' :=
  h.step hg (step_of_enabled ha)

/-- **`LoopBuffer` is linearizable**: under every interleaving of any number of threads that push and
one that reads, down to the single byte, each call takes effect once between its beginning and its
end, and the answers in this order are those of a bounded FIFO queue. -/
theorem threads_linearizable (hg : Guarded kind P)
    (h : (threads S P kind).Runs (.start counter buffer) as) :
    Linearizable BoundedQueue.Spec (.nil : BoundedQueue UInt8 S.cap)
      ((threads S P kind).trace (stages kind) (.start counter buffer) as) where
  threads p := by
    have hleads := h.leads (fun _ _ ha p' => leads_step (step_of_enabled ha) p') p
    cases p with
    | none | some _ => exact ⟨_, hleads⟩
  effects :=
    have ⟨q, hallowed, _⟩ := h.effects (fun _ _ _ ha hs => hs.next hg ha) meets_start
    ⟨q, hallowed⟩

end

/-! ## Races -/

/-- The cells that a thread may store to until it publishes them. -/
def Writer.cells (b : LoopBuffer S) : Writer → List Nat
  | .copying _ dataLen _ => (List.range dataLen.toNat).map (b.target dataLen)
  | .idle | .waiting _ | .entered _ | .leaving .. => []

/-- The cells that a handler is given. -/
def Reader.cells (b : LoopBuffer S) : Reader → List Nat
  | .fetching _ len _ _ => (List.range len.toNat).map b.origin
  | .idle | .entered _ | .committing _ | .leaving .. => []

/-- The cells that the reading thread may load: those that its handler is given, and those that it
was shown before and has not committed. -/
def Threads.visible (s : Threads S P) : List Nat :=
  s.reader.cells s.buf ++ (List.range s.exposed).map fun i => (s.buf.head.toNat + i) % S.cap

/-- No cell is stored to that another thread may load or store to, and none is out of the array. -/
structure RaceFree (s : Threads S P) : Prop where
  stores : ∀ p, ∀ i ∈ (s.writers p).cells s.buf, i < S.cap ∧ i ∉ s.visible
  loads : ∀ i ∈ s.visible, i < S.cap
  alone : ∀ p p', (s.writers p).cells s.buf ≠ [] → (s.writers p').cells s.buf ≠ [] → p = p'

namespace Meets

variable {kind : MutexKind} {s : Threads S P} {q : BoundedQueue UInt8 S.cap}

omit [DecidableEq P]

theorem mem_cells (h : Meets kind s q) {p : P} {i : Nat} (hi : i ∈ (s.writers p).cells s.buf) :
    (s.writers p).Inside ∧ ∃ j, q.items.length + j < S.cap ∧ i = (s.buf.tail.toNat + j) % S.cap := by
  have hw := h.writers p
  cases hp : s.writers p with
  | copying data dataLen todo =>
    rw [hp] at hw hi
    obtain ⟨j, hj, rfl⟩ := List.mem_map.1 hi
    have hj := List.mem_range.1 hj
    have hfits := hw.fits
    exact ⟨trivial, j, by omega, LoopBuffer.target_eq (by omega) hj⟩
  | idle | waiting _ | entered _ | leaving _ _ =>
    rw [hp] at hi
    exact absurd hi List.not_mem_nil

theorem mem_visible (h : Meets kind s q) {i : Nat} (hi : i ∈ s.visible) :
    ∃ j < q.items.length, i = (s.buf.head.toNat + j) % S.cap := by
  rcases List.mem_append.1 hi with hi | hi
  · have hr := h.reader
    cases hreader : s.reader with
    | fetching c len todo got =>
      rw [hreader] at hr hi
      obtain ⟨j, hj, rfl⟩ := List.mem_map.1 hi
      have hj := List.mem_range.1 hj
      have hflat := hr.flat
      exact ⟨j, Nat.lt_of_lt_of_le hj hr.front, LoopBuffer.origin_eq (by omega)⟩
    | idle | entered _ | committing _ | leaving _ _ =>
      rw [hreader] at hi
      exact absurd hi List.not_mem_nil
  · obtain ⟨j, hj, rfl⟩ := List.mem_map.1 hi
    exact ⟨j, Nat.lt_of_lt_of_le (List.mem_range.1 hj) h.exposed, rfl⟩

theorem raceFree (h : Meets kind s q) : RaceFree s where
  stores p i hi := by
    obtain ⟨-, j, hj, rfl⟩ := h.mem_cells hi
    refine ⟨Nat.mod_lt _ S.cap_pos, fun hvis => ?_⟩
    obtain ⟨k, hk, heq⟩ := h.mem_visible hvis
    exact h.holds.free_cell_ne hj hk heq.symm
  loads i hi := by
    obtain ⟨j, -, rfl⟩ := h.mem_visible hi
    exact Nat.mod_lt _ S.cap_pos
  alone p p' hp hp' := by
    obtain ⟨i, hi⟩ := List.exists_mem_of_ne_nil _ hp
    obtain ⟨j, hj⟩ := List.exists_mem_of_ne_nil _ hp'
    exact h.exclusive.alone p p' (h.mem_cells hi).1 (h.mem_cells hj).1

end Meets

/-- **No byte is stored to while it may be loaded**, whatever the interleaving: the cells of a push
that is being copied, those that a handler is given or may still look at, and those of other pushes
never meet, and all lie in the array. -/
theorem threads_raceFree {kind : MutexKind} {counter : UInt32} {buffer : Nat → UInt8}
    {as : List (Access P)} (hg : Guarded kind P)
    (h : (threads S P kind).Runs (.start counter buffer) as) :
    RaceFree ((threads S P kind).exec (.start counter buffer) as) := by
  obtain ⟨q, -, hmeets⟩ := h.effects (R := Meets kind) (fun _ _ _ ha hs => hs.next hg ha) meets_start
  exact hmeets.raceFree

/-- Two threads push, the first around the end of the array, where `tail` wraps, and the second while
bytes of the first are loaded. -/
def crossing : List (Access Bool) :=
  [.call true (.push (fun i => UInt8.ofNat i) 3), .call false (.push (fun i => UInt8.ofNat (i + 3)) 1),
    .lock true, .loadHead true, .store true 2, .store true 0, .store true 1, .storeTail true,
    .enter .pop, .unlock true, .lock false, .loadTail, .loadHead false, .load 1, .store false 0,
    .load 0, .storeTail false, .finish, .unlock false, .leave]

theorem threads_linearizable_crossing :
    Linearizable BoundedQueue.Spec (.nil : BoundedQueue UInt8 four.cap)
      ((threads four Bool .mutex).trace (stages .mutex) (.start 0xfffffffe fun _ => 0) crossing) :=
  threads_linearizable trivial (by decide)

theorem threads_raceFree_crossing :
    RaceFree ((threads four Bool .mutex).exec (.start 0xfffffffe fun _ => 0) crossing) :=
  threads_raceFree trivial (by decide)

end SNet.Utils
