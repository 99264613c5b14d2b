import Mathlib.Algebra.Order.Ring.Nat
import SNet.Library.Memory
import SNet.Library.Refinement

/-!
# The loop buffer

`LoopBuffer` keeps bytes in an array whose size is a power of two, between two 32-bit counters that
are never reduced, and finds a cell by masking a counter. `loopBuffer_refines_queue` says that it is
a bounded FIFO queue of bytes from every start of the counters on, also when they wrap.
-/

namespace SNet.Utils

open Memory

/-- The template argument `BufferSize`: a power of two that is a `uint32_t`. -/
structure BufferSize where
  val : UInt32
  pow : ∃ k, val.toNat = 2 ^ k

structure LoopBuffer (S : BufferSize) where
  head : UInt32 := 0
  tail : UInt32 := 0
  buffer : Nat → UInt8

namespace LoopBuffer

variable {S : BufferSize}

/-- `push(data, dataLen)` and what it returns. -/
def push (b : LoopBuffer S) (data : Nat → UInt8) (dataLen : UInt32) : LoopBuffer S × UInt32 :=
  let bufLen := S.val - (b.tail - b.head)
  if bufLen < dataLen then (b, 0)
  else
    let writePos := b.tail &&& (S.val - 1)
    let tailSize := S.val - writePos
    let buffer :=
      if tailSize < dataLen then
        write (write b.buffer writePos.toNat (slice data 0 tailSize.toNat)) 0
          (slice data tailSize.toNat (dataLen - tailSize).toNat)
      else write b.buffer writePos.toNat (slice data 0 dataLen.toNat)
    ({ b with buffer := buffer, tail := b.tail + dataLen }, dataLen)

/-- `pop(handler)`: the buffer, the bytes that the handler is called with and what is returned. The
handler is not called when there is nothing. Without one (the default, which throws when it is called)
`pop` is not modelled. -/
def pop (b : LoopBuffer S) : LoopBuffer S × List UInt8 × UInt32 :=
  let dataLen := b.tail - b.head
  if dataLen = 0 then (b, [], 0)
  else
    let readPos := b.head &&& (S.val - 1)
    let len := min dataLen (S.val - readPos)
    ({ b with head := b.head + len }, slice b.buffer readPos.toNat len.toNat, len)

/-- `read(handler, limit)`: the bytes that the handler is called with and what is returned. -/
def read (b : LoopBuffer S) (limit : UInt32) : List UInt8 × Int32 :=
  let dataLen := b.tail - b.head
  if dataLen = 0 then ([], 0)
  else
    let readPos := b.head &&& (S.val - 1)
    let len := min dataLen (S.val - readPos)
    let len := if 0 < limit then min len limit else len
    (slice b.buffer readPos.toNat len.toNat, len.toInt32)

/-- `read(limit)`: the bytes that the pair stands for, and its length; nothing for a null pointer. -/
def readPair (b : LoopBuffer S) (_limit : UInt32) : List UInt8 × UInt32 :=
  let dataLen := b.tail - b.head
  if dataLen = 0 then ([], 0)
  else
    let readPos := b.head &&& (S.val - 1)
    let len := min dataLen (S.val - readPos)
    (slice b.buffer readPos.toNat len.toNat, len)

def commit (b : LoopBuffer S) (len : UInt32) : LoopBuffer S × UInt32 :=
  ({ b with head := b.head + len }, len)

def empty (b : LoopBuffer S) : Bool := b.head == b.tail

def size (b : LoopBuffer S) : UInt32 := b.tail - b.head

def clear (b : LoopBuffer S) : LoopBuffer S := { b with head := 0, tail := 0 }

def peek (b : LoopBuffer S) : UInt32 := S.val - (b.tail - b.head)

end LoopBuffer

/-! ## Calls -/

inductive Call
  | push (data : Nat → UInt8) (dataLen : UInt32)
  | pop
  | read (limit : UInt32)
  | readPair (limit : UInt32)
  | commit (len : UInt32)
  | empty
  | size
  | clear
  | peek

inductive Answer
  | pushed (n : UInt32)
  | popped (bytes : List UInt8) (n : UInt32)
  | read (bytes : List UInt8) (n : Int32)
  | pair (bytes : List UInt8) (n : UInt32)
  | committed (n : UInt32)
  | flag (b : Bool)
  | number (n : UInt32)
  | done
  deriving DecidableEq

variable {S : BufferSize}

/-- A buffer and how many of the bytes that a `read` exposed are not yet committed. -/
structure Session (S : BufferSize) where
  buf : LoopBuffer S
  exposed : Nat := 0

def answer (s : Session S) : Call → Answer
  | .push data dataLen => .pushed (s.buf.push data dataLen).2
  | .pop => .popped s.buf.pop.2.1 s.buf.pop.2.2
  | .read limit => .read (s.buf.read limit).1 (s.buf.read limit).2
  | .readPair limit => .pair (s.buf.readPair limit).1 (s.buf.readPair limit).2
  | .commit len => .committed (s.buf.commit len).2
  | .empty => .flag s.buf.empty
  | .size => .number s.buf.size
  | .clear => .done
  | .peek => .number s.buf.peek

/-- Calls of one thread. What is committed was exposed by a `read` before. -/
def calls (S : BufferSize) : Machine (Session S) Call where
  enabled s
    | .commit len => len.toNat ≤ s.exposed
    | .push .. | .pop | .read _ | .readPair _ | .empty | .size | .clear | .peek => True
  next s
    | .push data dataLen => { s with buf := (s.buf.push data dataLen).1 }
    | .pop => { buf := s.buf.pop.1 }
    | .read limit => { s with exposed := (s.buf.read limit).1.length }
    | .readPair limit => { s with exposed := (s.buf.readPair limit).1.length }
    | .commit len => { buf := (s.buf.commit len).1, exposed := s.exposed - len.toNat }
    | .clear => { buf := s.buf.clear }
    | .empty | .size | .peek => s

instance calls.decidableEnabled (s : Session S) : ∀ c, Decidable ((calls S).enabled s c)
  | .commit _ => inferInstanceAs (Decidable (_ ≤ _))
  | .push .. | .pop | .read _ | .readPair _ | .empty | .size | .clear | .peek =>
    inferInstanceAs (Decidable True)

/-! ## A bounded queue -/

/-- A queue of at most `cap` elements, the next one first. -/
structure BoundedQueue (α : Type*) (cap : Nat) where
  items : List α
  bound : items.length ≤ cap

/-- What a user may expect of a bounded FIFO queue of bytes. A `pop` or `read` exposes bytes from the
front, and some when there are any. -/
def BoundedQueue.Spec {cap : Nat} (q : BoundedQueue UInt8 cap) :
    Call → Answer → BoundedQueue UInt8 cap → Prop
  | .push data dataLen, .pushed n, q' =>
    if q.items.length + dataLen.toNat ≤ cap then
      n = dataLen ∧ q'.items = q.items ++ slice data 0 dataLen.toNat
    else n = 0 ∧ q' = q
  | .pop, .popped bytes n, q' =>
    q.items = bytes ++ q'.items ∧ (bytes = [] → q.items = []) ∧ n.toNat = bytes.length
  | .read limit, .read bytes n, q' =>
    q' = q ∧ bytes <+: q.items ∧ (bytes = [] → q.items = []) ∧
      (0 < limit → bytes.length ≤ limit.toNat) ∧ n = (UInt32.ofNat bytes.length).toInt32
  | .readPair _, .pair bytes n, q' =>
    q' = q ∧ bytes <+: q.items ∧ (bytes = [] → q.items = []) ∧ n.toNat = bytes.length
  | .commit len, .committed n, q' => n = len ∧ q'.items = q.items.drop len.toNat
  | .empty, .flag b, q' => q' = q ∧ (b = true ↔ q.items = [])
  | .size, .number n, q' => q' = q ∧ n.toNat = q.items.length
  | .clear, .done, q' => q'.items = []
  | .peek, .number n, q' => q' = q ∧ q.items.length + n.toNat = cap
  | _, _, _ => False

/-! ## Positions -/

namespace BufferSize

variable {x : UInt32}

/-- The capacity as a number. -/
def cap (S : BufferSize) : Nat := S.val.toNat

theorem cap_pos : 0 < S.cap := by
  obtain ⟨k, hk⟩ := S.pow
  rw [cap, hk]
  exact Nat.two_pow_pos k

theorem cap_dvd : S.cap ∣ 2 ^ 32 := by
  obtain ⟨k, hk⟩ := S.pow
  rw [cap, hk]
  apply Nat.pow_dvd_pow
  have hlt := S.val.toNat_lt
  rw [hk] at hlt
  exact (Nat.pow_lt_pow_iff_right (by decide)).1 hlt |>.le

theorem cap_lt : S.cap < 2 ^ 32 := S.val.toNat_lt

/-- Masking is reducing. -/
theorem toNat_and_mask : (x &&& (S.val - 1)).toNat = x.toNat % S.cap := by
  obtain ⟨k, hk⟩ := S.pow
  have hone : (1 : UInt32) ≤ S.val := S.cap_pos
  rw [UInt32.toNat_and, UInt32.toNat_sub_of_le _ _ hone, cap, hk]
  exact Nat.and_two_pow_sub_one_eq_mod _ _

/-- The position of a counter survives its overflow. -/
theorem toNat_add_mod {y : UInt32} : (x + y).toNat % S.cap = (x.toNat + y.toNat) % S.cap := by
  rw [UInt32.toNat_add, Nat.mod_mod_of_dvd _ S.cap_dvd]

end BufferSize

/-! ## The buffer holds a queue -/

namespace BoundedQueue

variable {α : Type*} {cap : Nat}

def drop (q : BoundedQueue α cap) (k : Nat) : BoundedQueue α cap :=
  ⟨q.items.drop k, by rw [List.length_drop]; exact Nat.le_trans (Nat.sub_le _ _) q.bound⟩

def append (q : BoundedQueue α cap) (xs : List α) (h : q.items.length + xs.length ≤ cap) :
    BoundedQueue α cap :=
  ⟨q.items ++ xs, by rwa [List.length_append]⟩

def nil : BoundedQueue α cap := ⟨[], Nat.zero_le cap⟩

end BoundedQueue

/-- The bytes of `q` stand in the ring from `head` on, up to `tail`. -/
structure Holds (b : LoopBuffer S) (q : BoundedQueue UInt8 S.cap) : Prop where
  tail : b.tail = b.head + UInt32.ofNat q.items.length
  items : q.items = ring b.buffer S.cap b.head.toNat q.items.length

namespace Holds

variable {b : LoopBuffer S} {q : BoundedQueue UInt8 S.cap} {k : UInt32}

theorem length_lt (q : BoundedQueue UInt8 S.cap) : q.items.length < 2 ^ 32 :=
  Nat.lt_of_le_of_lt q.bound S.cap_lt

theorem toNat_length : (UInt32.ofNat q.items.length).toNat = q.items.length :=
  UInt32.toNat_ofNat_of_lt' (length_lt q)

theorem dataLen (h : Holds b q) : b.tail - b.head = UInt32.ofNat q.items.length := by
  rw [h.tail, UInt32.add_comm, UInt32.add_sub_cancel]

theorem toNat_dataLen (h : Holds b q) : (b.tail - b.head).toNat = q.items.length := by
  rw [h.dataLen, toNat_length]

theorem toNat_bufLen (h : Holds b q) :
    (S.val - (b.tail - b.head)).toNat = S.cap - q.items.length := by
  have hle : b.tail - b.head ≤ S.val := by
    rw [UInt32.le_iff_toNat_le, h.toNat_dataLen]
    exact q.bound
  rw [UInt32.toNat_sub_of_le _ _ hle, h.toNat_dataLen]
  rfl

theorem dataLen_eq_zero (h : Holds b q) : b.tail - b.head = 0 ↔ q.items = [] := by
  rw [← UInt32.toNat_inj, h.toNat_dataLen]
  exact List.length_eq_zero_iff

/-- What is left of the array behind a position. -/
theorem toNat_rest {x : UInt32} :
    (S.val - (x &&& (S.val - 1))).toNat = S.cap - x.toNat % S.cap := by
  have hle : x &&& (S.val - 1) ≤ S.val := by
    rw [UInt32.le_iff_toNat_le, S.toNat_and_mask]
    exact (Nat.mod_lt _ S.cap_pos).le
  rw [UInt32.toNat_sub_of_le _ _ hle, S.toNat_and_mask]
  rfl

/-- The bytes of the queue that lie side by side at its front. -/
def segment (b : LoopBuffer S) : UInt32 :=
  min (b.tail - b.head) (S.val - (b.head &&& (S.val - 1)))

theorem toNat_min {x y : UInt32} : (min x y).toNat = min x.toNat y.toNat := by
  rw [Nat.min_def]
  exact apply_ite UInt32.toNat ..

theorem toNat_segment (h : Holds b q) :
    (segment b).toNat = min q.items.length (S.cap - b.head.toNat % S.cap) := by
  rw [segment, toNat_min, h.toNat_dataLen, toNat_rest]

theorem segment_pos (h : Holds b q) (hne : q.items ≠ []) : 0 < (segment b).toNat := by
  rw [h.toNat_segment]
  have hlt := Nat.mod_lt b.head.toNat S.cap_pos
  have hlen := List.length_pos_iff.2 hne
  omega

/-- The array shows the front of the queue. -/
theorem slice_eq_take (h : Holds b q) (hk : k.toNat ≤ (segment b).toNat) :
    slice b.buffer (b.head &&& (S.val - 1)).toNat k.toNat = q.items.take k.toNat := by
  rw [h.toNat_segment] at hk
  have hfits : b.head.toNat % S.cap + k.toNat ≤ S.cap := by
    have := Nat.mod_lt b.head.toNat S.cap_pos
    omega
  rw [S.toNat_and_mask, ← ring_eq_slice hfits]
  obtain ⟨j, hj⟩ := Nat.exists_eq_add_of_le (Nat.le_trans hk (Nat.min_le_left _ _))
  rw [h.items, hj, ring_add, List.take_left' length_ring]

theorem advance (h : Holds b q) (hk : k.toNat ≤ q.items.length) :
    Holds { b with head := b.head + k } (q.drop k.toNat) := by
  have hlen : (q.drop k.toNat).items.length = q.items.length - k.toNat := List.length_drop
  constructor
  · show b.tail = b.head + k + UInt32.ofNat (q.drop k.toNat).items.length
    have hsum : k + UInt32.ofNat (q.items.length - k.toNat) = UInt32.ofNat q.items.length := by
      rw [UInt32.ofNat_sub hk, UInt32.ofNat_toNat, UInt32.add_comm, UInt32.sub_add_cancel]
    rw [hlen, UInt32.add_assoc, hsum]
    exact h.tail
  · show q.items.drop k.toNat = ring b.buffer S.cap (b.head + k).toNat (q.drop k.toNat).items.length
    rw [hlen, ring_of_mod_eq S.toNat_add_mod, ← drop_ring hk, ← h.items]

theorem push_of_full {data : Nat → UInt8} {dataLen : UInt32} (hfull : b.peek < dataLen) :
    b.push data dataLen = (b, 0) := if_pos hfull

/-- The bytes of a `push` that fits are stored behind the queue. -/
theorem push_of_fits {data : Nat → UInt8} {dataLen : UInt32} (hfit : ¬ b.peek < dataLen) :
    b.push data dataLen =
      ({ b with
          tail := b.tail + dataLen
          buffer := ringWrite b.buffer S.cap b.tail.toNat (slice data 0 dataLen.toNat) },
        dataLen) := by
  have hwrap : S.val - (b.tail &&& (S.val - 1)) < dataLen ↔
      S.cap - b.tail.toNat % S.cap < (slice data 0 dataLen.toNat).length := by
    rw [UInt32.lt_iff_toNat_lt, toNat_rest, length_slice]
  rw [LoopBuffer.peek] at hfit
  rw [LoopBuffer.push, if_neg hfit, ringWrite]
  dsimp only
  rw [S.toNat_and_mask, toNat_rest]
  by_cases hlt : S.val - (b.tail &&& (S.val - 1)) < dataLen
  · have hlen := hwrap.1 hlt
    rw [length_slice] at hlen
    have hsub : (dataLen - (S.val - (b.tail &&& (S.val - 1)))).toNat =
        dataLen.toNat - (S.cap - b.tail.toNat % S.cap) := by
      rw [UInt32.toNat_sub_of_le _ _ (UInt32.le_of_lt hlt), toNat_rest]
    rw [if_pos hlt, if_pos (hwrap.1 hlt), take_slice hlen.le, drop_slice hlen.le, Nat.zero_add, hsub]
  · rw [if_neg hlt, if_neg (mt hwrap.2 hlt)]

theorem push (h : Holds b q) {data : Nat → UInt8} {dataLen : UInt32}
    (hfit : q.items.length + (slice data 0 dataLen.toNat).length ≤ S.cap) :
    Holds
      { b with
        tail := b.tail + dataLen
        buffer := ringWrite b.buffer S.cap b.tail.toNat (slice data 0 dataLen.toNat) }
      (q.append (slice data 0 dataLen.toNat) hfit) := by
  have hlen : (q.append (slice data 0 dataLen.toNat) hfit).items.length =
      q.items.length + dataLen.toNat := by
    rw [BoundedQueue.append, List.length_append, length_slice]
  constructor
  · rw [hlen, UInt32.ofNat_add, UInt32.ofNat_toNat, ← UInt32.add_assoc, ← h.tail]
  · have htail : b.tail.toNat % S.cap = (b.head.toNat + q.items.length) % S.cap := by
      rw [h.tail, S.toNat_add_mod, toNat_length]
    have happend := ring_ringWrite_append (m := b.buffer) (a := b.head.toNat) hfit
    rw [length_slice, ← h.items] at happend
    rw [hlen, ringWrite_of_mod_eq htail, happend]
    rfl

theorem peek_lt_iff (h : Holds b q) : b.peek < k ↔ ¬ q.items.length + k.toNat ≤ S.cap := by
  rw [UInt32.lt_iff_toNat_lt, LoopBuffer.peek, h.toNat_bufLen]
  have := q.bound
  omega

/-! ## Refinement -/

theorem push_spec (h : Holds b q) (data : Nat → UInt8) (dataLen : UInt32) :
    ∃ q', q.Spec (.push data dataLen) (.pushed (b.push data dataLen).2) q' ∧
      Holds (b.push data dataLen).1 q' := by
  by_cases hfull : b.peek < dataLen
  · refine ⟨q, ?_, ?_⟩
    · rw [BoundedQueue.Spec, if_neg (h.peek_lt_iff.1 hfull), push_of_full hfull]
      exact ⟨rfl, rfl⟩
    · rw [push_of_full hfull]
      exact h
  · have hfit := not_not.1 (mt h.peek_lt_iff.2 hfull)
    refine ⟨q.append (slice data 0 dataLen.toNat) (by rwa [length_slice]), ?_, ?_⟩
    · rw [BoundedQueue.Spec, if_pos hfit, push_of_fits hfull]
      exact ⟨rfl, rfl⟩
    · rw [push_of_fits hfull]
      exact h.push _

/-- What is shown of the queue is a part of its front, and not nothing when there is something. -/
theorem take_spec (h : Holds b q) (hpos : 0 < k.toNat)
    (hk : k.toNat ≤ (segment b).toNat) :
    slice b.buffer (b.head &&& (S.val - 1)).toNat k.toNat <+: q.items ∧
      (slice b.buffer (b.head &&& (S.val - 1)).toNat k.toNat = [] → q.items = []) := by
  refine ⟨h.slice_eq_take hk ▸ List.take_prefix _ _, fun hnil => ?_⟩
  have hlen := congrArg List.length hnil
  rw [length_slice] at hlen
  exact absurd hlen hpos.ne'

theorem pop_spec (h : Holds b q) :
    ∃ q', q.Spec .pop (.popped b.pop.2.1 b.pop.2.2) q' ∧ Holds b.pop.1 q' := by
  by_cases hzero : b.tail - b.head = 0
  · have hpop : b.pop = (b, [], 0) := if_pos hzero
    rw [hpop]
    exact ⟨q, ⟨rfl, fun _ => h.dataLen_eq_zero.1 hzero, rfl⟩, h⟩
  · have hpop : b.pop = ({ b with head := b.head + segment b },
        slice b.buffer (b.head &&& (S.val - 1)).toNat (segment b).toNat, segment b) := if_neg hzero
    have hle : (segment b).toNat ≤ q.items.length := h.toNat_segment ▸ Nat.min_le_left _ _
    have hpos := h.segment_pos (mt h.dataLen_eq_zero.2 hzero)
    rw [hpop]
    refine ⟨q.drop (segment b).toNat, ⟨?_, (h.take_spec hpos le_rfl).2, ?_⟩, h.advance hle⟩
    · rw [h.slice_eq_take le_rfl]
      exact (List.take_append_drop _ _).symm
    · exact length_slice.symm

theorem read_spec (h : Holds b q) (limit : UInt32) :
    q.Spec (.read limit) (.read (b.read limit).1 (b.read limit).2) q := by
  by_cases hzero : b.tail - b.head = 0
  · have hread : b.read limit = ([], 0) := if_pos hzero
    rw [hread]
    exact ⟨rfl, List.nil_prefix, fun _ => h.dataLen_eq_zero.1 hzero, fun _ => Nat.zero_le _, rfl⟩
  · obtain ⟨len, hlen⟩ : ∃ len, len = if 0 < limit then min (segment b) limit else segment b :=
      ⟨_, rfl⟩
    have hread : b.read limit =
        (slice b.buffer (b.head &&& (S.val - 1)).toNat len.toNat, len.toInt32) := by
      rw [hlen]
      exact if_neg hzero
    have hseg := h.segment_pos (mt h.dataLen_eq_zero.2 hzero)
    have hle : len.toNat ≤ (segment b).toNat ∧ 0 < len.toNat ∧
        (0 < limit → len.toNat ≤ limit.toNat) := by
      rw [hlen]
      split
      · next hlimit =>
        rw [toNat_min]
        exact ⟨Nat.min_le_left _ _, Nat.lt_min.2 ⟨hseg, hlimit⟩, fun _ => Nat.min_le_right _ _⟩
      · next hlimit => exact ⟨le_rfl, hseg, fun h => absurd h hlimit⟩
    rw [hread]
    refine ⟨rfl, (h.take_spec hle.2.1 hle.1).1, (h.take_spec hle.2.1 hle.1).2, ?_, ?_⟩
    · rw [length_slice]
      exact hle.2.2
    · rw [length_slice, UInt32.ofNat_toNat]

theorem readPair_spec (h : Holds b q) (limit : UInt32) :
    q.Spec (.readPair limit) (.pair (b.readPair limit).1 (b.readPair limit).2) q := by
  by_cases hzero : b.tail - b.head = 0
  · have hread : b.readPair limit = ([], 0) := if_pos hzero
    rw [hread]
    exact ⟨rfl, List.nil_prefix, fun _ => h.dataLen_eq_zero.1 hzero, rfl⟩
  · have hread : b.readPair limit =
        (slice b.buffer (b.head &&& (S.val - 1)).toNat (segment b).toNat, segment b) := if_neg hzero
    have hpos := h.segment_pos (mt h.dataLen_eq_zero.2 hzero)
    rw [hread]
    refine ⟨rfl, (h.take_spec hpos le_rfl).1, (h.take_spec hpos le_rfl).2, length_slice.symm⟩

end Holds

/-- How a buffer stands to the queue that it implements. -/
structure Implements (s : Session S) (q : BoundedQueue UInt8 S.cap) : Prop where
  holds : Holds s.buf q
  exposed : s.exposed ≤ q.items.length

theorem implements_next {s : Session S} {q : BoundedQueue UInt8 S.cap} {c : Call}
    (hc : (calls S).enabled s c) (h : Implements s q) :
    ∃ q', q.Spec c (answer s c) q' ∧ Implements ((calls S).next s c) q' := by
  have hexp := h.exposed
  cases c with
  | push data dataLen =>
    obtain ⟨q', hspec, hholds⟩ := h.holds.push_spec data dataLen
    refine ⟨q', hspec, hholds, ?_⟩
    rw [BoundedQueue.Spec] at hspec
    split at hspec
    · rw [hspec.2, List.length_append]
      exact Nat.le_trans hexp (Nat.le_add_right _ _)
    · rw [hspec.2]
      exact hexp
  | pop =>
    obtain ⟨q', hspec, hholds⟩ := h.holds.pop_spec
    exact ⟨q', hspec, hholds, Nat.zero_le _⟩
  | read limit =>
    have hspec := h.holds.read_spec limit
    exact ⟨q, hspec, h.holds, hspec.2.1.length_le⟩
  | readPair limit =>
    have hspec := h.holds.readPair_spec limit
    exact ⟨q, hspec, h.holds, hspec.2.1.length_le⟩
  | commit len =>
    refine ⟨q.drop len.toNat, ⟨rfl, rfl⟩, h.holds.advance (Nat.le_trans hc hexp), ?_⟩
    exact Nat.le_trans (Nat.sub_le_sub_right hexp _) List.length_drop.ge
  | empty =>
    refine ⟨q, ⟨rfl, ?_⟩, h⟩
    rw [LoopBuffer.empty, beq_iff_eq, ← h.holds.dataLen_eq_zero, UInt32.sub_eq_iff_eq_add,
      UInt32.zero_add]
    exact eq_comm
  | size => exact ⟨q, ⟨rfl, h.holds.toNat_dataLen⟩, h⟩
  | clear => exact ⟨.nil, rfl, ⟨rfl, rfl⟩, Nat.zero_le _⟩
  | peek =>
    refine ⟨q, ⟨rfl, ?_⟩, h⟩
    rw [LoopBuffer.peek, h.holds.toNat_bufLen]
    exact Nat.add_sub_of_le q.bound

/-- An empty buffer with counters of some value. -/
def Session.start (counter : UInt32) (buffer : Nat → UInt8) : Session S where
  buf := ⟨counter, counter, buffer⟩

theorem implements_start {counter : UInt32} {buffer : Nat → UInt8} :
    Implements (Session.start counter buffer) (.nil : BoundedQueue UInt8 S.cap) :=
  ⟨⟨(UInt32.add_zero counter).symm, rfl⟩, Nat.zero_le _⟩

/-- `size` and `peek` are what is in the queue and what still fits into it. -/
structure Accounts (b : LoopBuffer S) (q : BoundedQueue UInt8 S.cap) : Prop where
  size : b.size.toNat = q.items.length
  sum : b.size.toNat + b.peek.toNat = S.val.toNat

theorem Holds.accounts {b : LoopBuffer S} {q : BoundedQueue UInt8 S.cap} (h : Holds b q) :
    Accounts b q := by
  refine ⟨h.toNat_dataLen, ?_⟩
  rw [LoopBuffer.size, LoopBuffer.peek, h.toNat_dataLen, h.toNat_bufLen]
  exact Nat.add_sub_of_le q.bound

/-- **`LoopBuffer` is a bounded FIFO queue of bytes**, from equal counters of any value on: every
sequence of calls that commits only what was exposed gets answers that such a queue gives, and
leaves the bytes of that queue in the ring. -/
theorem loopBuffer_refines_queue {counter : UInt32} {buffer : Nat → UInt8} {cs : List Call}
    (h : (calls S).Runs (Session.start counter buffer) cs) :
    ∃ q, Machine.Allowed BoundedQueue.Spec (.nil : BoundedQueue UInt8 S.cap)
        ((calls S).observe answer (Session.start counter buffer) cs) q ∧
      Holds ((calls S).exec (Session.start counter buffer) cs).buf q ∧
      Accounts ((calls S).exec (Session.start counter buffer) cs).buf q := by
  obtain ⟨q, hallowed, himpl⟩ := h.simulates (fun s q c => implements_next) implements_start
  exact ⟨q, hallowed, himpl.holds, himpl.holds.accounts⟩

/-- A buffer of four bytes. -/
def four : BufferSize := ⟨4, 2, rfl⟩

/-- Three bytes, of which two are committed, and two more around the end of the array, while `tail`
wraps. -/
def wrapping : List Call :=
  [.push (fun i => UInt8.ofNat i) 3, .read 2, .commit 2, .push (fun i => UInt8.ofNat (i + 3)) 2,
    .pop, .size]

theorem loopBuffer_refines_queue_wrapping :
    ∃ q, Machine.Allowed BoundedQueue.Spec (.nil : BoundedQueue UInt8 four.cap)
        ((calls four).observe answer (Session.start 0xfffffffd fun _ => 0) wrapping) q ∧
      Holds ((calls four).exec (Session.start 0xfffffffd fun _ => 0) wrapping).buf q ∧
      Accounts ((calls four).exec (Session.start 0xfffffffd fun _ => 0) wrapping).buf q :=
  loopBuffer_refines_queue (by decide)

end SNet.Utils
