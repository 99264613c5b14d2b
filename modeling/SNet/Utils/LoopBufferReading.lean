import SNet.Utils.LoopBuffer

/-!
# The two ways to read a loop buffer

`read(handler, limit)` hands a segment of the array to a handler, `read(limit)` returns it as a
pointer and a length. The first cuts the segment to the limit, the second has the limit and does not
look at it: they agree exactly while the limit does not cut anything off (`reads_agree_iff`).
-/

namespace SNet.Utils

variable {S : BufferSize}

/-- A part of the array `buffer`, from `&buffer[start]` on. -/
structure Segment where
  start : UInt32
  len : UInt32
  deriving DecidableEq

namespace LoopBuffer

/-- `read(handler, limit)`: what it leaves, what the handler is called with, if it is, and what is
returned. -/
def readSegment (b : LoopBuffer S) (limit : UInt32) : LoopBuffer S × Option Segment × Int32 :=
  let dataLen := b.tail - b.head
  if dataLen = 0 then (b, none, 0)
  else
    let readPos := b.head &&& (S.val - 1)
    let len := min dataLen (S.val - readPos)
    let len := if 0 < limit then min len limit else len
    (b, some ⟨readPos, len⟩, len.toInt32)

/-- `read(limit)`: what it leaves, and the pair of a position in the array, or a null pointer, and a
length. -/
def readPairSegment (b : LoopBuffer S) (_limit : UInt32) : LoopBuffer S × Option UInt32 × UInt32 :=
  let dataLen := b.tail - b.head
  if dataLen = 0 then (b, none, 0)
  else
    let readPos := b.head &&& (S.val - 1)
    let len := min dataLen (S.val - readPos)
    -- the line that would cut `len` to the limit is a comment
    (b, some readPos, len)

/-- The part of the array that a pair stands for. -/
def pairSegment (b : LoopBuffer S) (limit : UInt32) : Option Segment :=
  (b.readPairSegment limit).2.1.map (⟨·, (b.readPairSegment limit).2.2⟩)

/-- The bytes of a segment, none for none. -/
def bytes (b : LoopBuffer S) : Option Segment → List UInt8
  | none => []
  | some g => Memory.slice b.buffer g.start.toNat g.len.toNat

variable {b : LoopBuffer S} {limit : UInt32}

theorem read_eq_bytes :
    b.read limit = (b.bytes (b.readSegment limit).2.1, (b.readSegment limit).2.2) := by
  rw [read, readSegment]
  dsimp only
  split <;> rfl

theorem readPair_eq_bytes :
    b.readPair limit = (b.bytes (b.pairSegment limit), (b.readPairSegment limit).2.2) := by
  rw [readPair, pairSegment, readPairSegment]
  dsimp only
  split <;> rfl

end LoopBuffer

/-! ## What is to be shown -/

section Shown

variable (b : LoopBuffer S) (q : BoundedQueue UInt8 S.cap) (limit : UInt32)

/-- How many bytes of the queue lie side by side at its front. -/
def contiguous : Nat := min q.items.length (S.cap - b.head.toNat % S.cap)

/-- A limit of zero is none. -/
def cut (n : Nat) : Nat := if 0 < limit then min n limit.toNat else n

/-- The readable bytes that lie side by side, cut to the limit. -/
def Shows (g : Option Segment) : Prop :=
  if q.items = [] then g = none
  else ∃ start len, g = some ⟨start, len⟩ ∧ start.toNat = b.head.toNat % S.cap ∧
    len.toNat = cut limit (contiguous b q)

/-- The limit cuts nothing off. -/
def Spares : Prop :=
  limit = 0 ∨ q.items.length ≤ limit.toNat ∨ S.cap - b.head.toNat % S.cap ≤ limit.toNat

/-- Both ways to read show the same, change nothing and lead to the same `commit`. -/
structure ReadsAgree : Prop where
  unchanged : (b.readSegment limit).1 = b ∧ (b.readPairSegment limit).1 = b
  handler : Shows b q limit (b.readSegment limit).2.1
  pair : Shows b q limit (b.pairSegment limit)
  same : (b.readSegment limit).2.1 = b.pairSegment limit
  advance : b.commit (b.readSegment limit).2.2.toUInt32 = b.commit (b.readPairSegment limit).2.2

end Shown

variable {b : LoopBuffer S} {q : BoundedQueue UInt8 S.cap} {limit : UInt32}

theorem spares_iff_cut : Spares b q limit ↔ cut limit (contiguous b q) = contiguous b q := by
  have hpos : limit = 0 ↔ ¬ 0 < limit := by
    rw [UInt32.lt_iff_toNat_lt, ← UInt32.toNat_inj]
    exact Nat.pos_iff_ne_zero.not_left.symm
  rw [Spares, cut, contiguous]
  split
  · next h =>
    rw [or_iff_right (mt hpos.1 (not_not.2 h)), min_eq_left_iff, min_le_iff]
  · next h => exact iff_of_true (Or.inl (hpos.2 h)) rfl

namespace LoopBuffer

variable (limit)

theorem readSegment_of_empty (h : b.tail - b.head = 0) : b.readSegment limit = (b, none, 0) :=
  if_pos h

theorem readPairSegment_of_empty (h : b.tail - b.head = 0) :
    b.readPairSegment limit = (b, none, 0) := if_pos h

/-- The handler is called with the segment of the array, cut to the limit. -/
theorem readSegment_of_ne (h : b.tail - b.head ≠ 0) :
    ∃ len, b.readSegment limit = (b, some ⟨b.head &&& (S.val - 1), len⟩, len.toInt32) ∧
      len.toNat = cut limit (Holds.segment b).toNat := by
  refine ⟨_, if_neg h, ?_⟩
  rw [cut]
  split
  · exact Holds.toNat_min
  · rfl

theorem readPairSegment_of_ne (h : b.tail - b.head ≠ 0) :
    b.readPairSegment limit = (b, some (b.head &&& (S.val - 1)), Holds.segment b) := if_neg h

end LoopBuffer

namespace Holds

theorem shows_iff (h : Holds b q) (hzero : b.tail - b.head ≠ 0) {len : UInt32} :
    Shows b q limit (some ⟨b.head &&& (S.val - 1), len⟩) ↔
      len.toNat = cut limit (contiguous b q) := by
  rw [Shows, if_neg (mt h.dataLen_eq_zero.2 hzero)]
  constructor
  · rintro ⟨start, _, hsome, -, hlen⟩
    cases hsome
    exact hlen
  · intro hlen
    exact ⟨_, _, rfl, S.toNat_and_mask, hlen⟩

/-- What one read shows of a buffer that is in use is always right for the handler, and for the pair
when the limit cuts nothing off. -/
theorem readsAgree_of_ne (h : Holds b q) (hzero : b.tail - b.head ≠ 0) :
    ReadsAgree b q limit ↔ cut limit (contiguous b q) = contiguous b q := by
  obtain ⟨len, hread, hlen⟩ := LoopBuffer.readSegment_of_ne limit hzero
  have hpair := LoopBuffer.readPairSegment_of_ne limit hzero
  have hsegment : b.pairSegment limit = some ⟨b.head &&& (S.val - 1), segment b⟩ := by
    rw [LoopBuffer.pairSegment, hpair]
    rfl
  have hcont : (segment b).toNat = contiguous b q := h.toNat_segment
  rw [hcont] at hlen
  constructor
  · intro hagree
    have hsame := hagree.same
    rw [hread, hsegment] at hsame
    injection hsame with hsame
    injection hsame with _ hsame
    rw [← hlen, hsame, hcont]
  · intro hcut
    have heq : len = segment b := by rw [← UInt32.toNat_inj, hlen, hcut, hcont]
    rw [← heq] at hpair hsegment
    constructor
    · rw [hread, hpair]
      exact ⟨rfl, rfl⟩
    · rw [hread]
      exact (h.shows_iff hzero).2 hlen
    · rw [hsegment]
      exact (h.shows_iff hzero).2 hlen
    · rw [hread, hsegment]
    · rw [hread, hpair, UInt32.toUInt32_toInt32]

theorem readsAgree_iff (h : Holds b q) : ReadsAgree b q limit ↔ Spares b q limit := by
  by_cases hzero : b.tail - b.head = 0
  · have hnil := h.dataLen_eq_zero.1 hzero
    have hread := LoopBuffer.readSegment_of_empty limit hzero
    have hpair := LoopBuffer.readPairSegment_of_empty limit hzero
    have hsegment : b.pairSegment limit = none := by
      rw [LoopBuffer.pairSegment, hpair]
      rfl
    have hshows : Shows b q limit none := by rw [Shows, if_pos hnil]
    refine iff_of_true ?_ (Or.inr (Or.inl (by rw [hnil]; exact Nat.zero_le _)))
    constructor
    · rw [hread, hpair]
      exact ⟨rfl, rfl⟩
    · rwa [hread]
    · rwa [hsegment]
    · rw [hread, hsegment]
    · rw [hread, hpair]
      rfl
  · rw [h.readsAgree_of_ne hzero, spares_iff_cut]

end Holds

/-- Where the limit cuts nothing off, the handler is called with the bytes that the pair shows. -/
theorem Holds.read_eq_readPair (h : Holds b q) (hspares : Spares b q limit) :
    (b.read limit).1 = (b.readPair limit).1 := by
  rw [LoopBuffer.read_eq_bytes, LoopBuffer.readPair_eq_bytes, (h.readsAgree_iff.2 hspares).same]

/-- **When the two ways to read agree.** After every run of calls, from counters of any value on,
both show the same for a limit, and the right thing, exactly when the limit cuts nothing off what
lies side by side. -/
theorem reads_agree_iff {counter : UInt32} {buffer : Nat → UInt8} {cs : List Call}
    (h : (calls S).Runs (Session.start counter buffer) cs) :
    ∃ q, Machine.Allowed BoundedQueue.Spec (.nil : BoundedQueue UInt8 S.cap)
        ((calls S).observe answer (Session.start counter buffer) cs) q ∧
      Holds ((calls S).exec (Session.start counter buffer) cs).buf q ∧
      ∀ limit, ReadsAgree ((calls S).exec (Session.start counter buffer) cs).buf q limit ↔
        Spares ((calls S).exec (Session.start counter buffer) cs).buf q limit := by
  obtain ⟨q, hallowed, hholds, -⟩ := loopBuffer_refines_queue h
  exact ⟨q, hallowed, hholds, fun limit => hholds.readsAgree_iff⟩

/-- Three bytes in a buffer of four, and room for one of them where they are to be copied. -/
def threeBytes : List Call := [.push (fun i => UInt8.ofNat i) 3]

theorem reads_agree_iff_threeBytes :
    ∃ q, Machine.Allowed BoundedQueue.Spec (.nil : BoundedQueue UInt8 four.cap)
        ((calls four).observe answer (Session.start 0 fun _ => 0) threeBytes) q ∧
      Holds ((calls four).exec (Session.start 0 fun _ => 0) threeBytes).buf q ∧
      ∀ limit, ReadsAgree ((calls four).exec (Session.start 0 fun _ => 0) threeBytes).buf q limit ↔
        Spares ((calls four).exec (Session.start 0 fun _ => 0) threeBytes).buf q limit :=
  reads_agree_iff (by decide)

/-- The pair shows three bytes to a reader that asked for one. -/
theorem reads_disagree :
    (calls four).Runs (Session.start 0 fun _ => 0) threeBytes ∧
      (((calls four).exec (Session.start 0 fun _ => 0) threeBytes).buf.readSegment 1).2 =
        (some ⟨0, 1⟩, 1) ∧
      (((calls four).exec (Session.start 0 fun _ => 0) threeBytes).buf.readPairSegment 1).2 =
        (some 0, 3) ∧
      ∀ q, ¬ ReadsAgree ((calls four).exec (Session.start 0 fun _ => 0) threeBytes).buf q 1 := by
  refine ⟨by decide, by decide, by decide, fun q hagree => ?_⟩
  exact absurd hagree.same (by decide)

end SNet.Utils
