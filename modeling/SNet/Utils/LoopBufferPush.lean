import SNet.Library.Transducer
import SNet.Utils.LoopBuffer

/-!
# Pushes of several fragments and of encrypted data

`mpush` pushes fragment by fragment and ends at the first result that is zero. It is all or nothing
exactly when the first fragment decides it (`mpush_allOrNothing_iff`). The push with an encrypter
copies and encrypts in place, in one segment or in two, and leaves what the plain push of the
encrypted data leaves. The encrypter is passed by value: what state it refers to is advanced, what
state it holds is not (`pushEncrypted_eq_push`).
-/

namespace SNet.Utils

open Memory

variable {S : BufferSize} {σ τ : Type*}

/-- An `Encrypter`, a `std::function` whose target is a byte stream cipher. A copy of it has a copy of
the state that the target holds, and refers to the same state outside of it, of type `τ`. -/
structure Encrypter (σ τ : Type*) where
  cipher : Transducer (σ × τ) UInt8 UInt8
  held : σ

/-- What data is encrypted to in one go, and the state behind it. -/
def Encrypter.run (encrypter : Encrypter σ τ) (shared : τ) (data : List UInt8) :
    (σ × τ) × List UInt8 :=
  encrypter.cipher.run (encrypter.held, shared) data

/-- `encrypter(&buffer[pos], len)`, which changes the encrypter that is called, the state that it
refers to, and the bytes. -/
def Encrypter.apply (encrypter : Encrypter σ τ) (shared : τ) (buffer : Nat → UInt8) (pos len : Nat) :
    Encrypter σ τ × τ × (Nat → UInt8) :=
  let out := encrypter.run shared (slice buffer pos len)
  ({ encrypter with held := out.1.1 }, out.1.2, write buffer pos out.2)

/-- What a push with an encrypter leaves: the buffer, the state that the encrypter refers to, the
blocks that it was called with, and what is returned. The encrypter that was called is the parameter,
a copy, which ends with the push. -/
structure Encrypted (S : BufferSize) (τ : Type*) where
  buf : LoopBuffer S
  shared : τ
  blocks : List (List UInt8)
  ret : UInt32

namespace LoopBuffer

/-- `push(const std::string &data)`, which passes the length on as a `uint32_t`. The other overloads
of one argument do the same with the bytes of theirs: a `const char *` with those of the C string, the
template with those of the object itself, which is what a `std::string_view` or a `char *` goes to. -/
def pushString (b : LoopBuffer S) (data : List UInt8) : LoopBuffer S × UInt32 :=
  b.push (fun i => data.getD i 0) (UInt32.ofNat data.length)

/-- `mpush(data, rest...)`, with the bytes that the overload of `push` takes of each fragment. -/
def mpush (b : LoopBuffer S) : List (List UInt8) → LoopBuffer S × Int32
  | [] => (b, 0)
  | data :: rest =>
    let ret := b.pushString data
    if 0 < ret.2 then
      let more := ret.1.mpush rest
      (more.1, (ret.2 + more.2.toUInt32).toInt32)
    else (ret.1, 0)

/-- `push(data, dataLen, encrypter)` -/
def pushEncrypted (b : LoopBuffer S) (data : Nat → UInt8) (dataLen : UInt32)
    (encrypter : Encrypter σ τ) (shared : τ) : Encrypted S τ :=
  let bufLen := S.val - (b.tail - b.head)
  if bufLen < dataLen then ⟨b, shared, [], 0⟩
  else
    let writePos := b.tail &&& (S.val - 1)
    let tailSize := S.val - writePos
    if tailSize < dataLen then
      let copied := write b.buffer writePos.toNat (slice data 0 tailSize.toNat)
      let first := encrypter.apply shared copied writePos.toNat tailSize.toNat
      let leftSize := dataLen - tailSize
      let copiedLeft := write first.2.2 0 (slice data tailSize.toNat leftSize.toNat)
      let second := first.1.apply first.2.1 copiedLeft 0 leftSize.toNat
      { buf := { b with buffer := second.2.2, tail := b.tail + dataLen }
        shared := second.2.1
        blocks :=
          [slice copied writePos.toNat tailSize.toNat, slice copiedLeft 0 leftSize.toNat]
        ret := dataLen }
    else
      let copied := write b.buffer writePos.toNat (slice data 0 dataLen.toNat)
      let only := encrypter.apply shared copied writePos.toNat dataLen.toNat
      { buf := { b with buffer := only.2.2, tail := b.tail + dataLen }
        shared := only.2.1
        blocks := [slice copied writePos.toNat dataLen.toNat]
        ret := dataLen }

/-- The bytes between `head` and `tail`. -/
def readable (b : LoopBuffer S) : List UInt8 :=
  ring b.buffer S.cap b.head.toNat (b.tail - b.head).toNat

end LoopBuffer

namespace Holds

variable {b : LoopBuffer S} {q : BoundedQueue UInt8 S.cap}

theorem readable (h : Holds b q) : b.readable = q.items := by
  rw [LoopBuffer.readable, h.toNat_dataLen]
  exact h.items.symm

theorem toNat_peek (h : Holds b q) : b.peek.toNat = S.cap - q.items.length := h.toNat_bufLen

theorem slice_getD {data : List UInt8} {n : Nat} (hn : n ≤ data.length) :
    slice (fun i => data.getD i 0) 0 n = data.take n := by
  refine List.ext_getElem ?_ fun i hi hi' => ?_
  · rw [length_slice, List.length_take, Nat.min_eq_left hn]
  · rw [length_slice] at hi
    simp [slice, Nat.lt_of_lt_of_le hi hn]

/-- What a `push` of a string leaves. -/
theorem pushString (h : Holds b q) (data : List UInt8) :
    ∃ q', Holds (b.pushString data).1 q' ∧ (b.pushString data).1.head = b.head ∧
      if S.cap - q.items.length < data.length % 2 ^ 32 then (b.pushString data).2 = 0 ∧ q' = q
      else (b.pushString data).2 = UInt32.ofNat data.length ∧
        q'.items = q.items ++ data.take (data.length % 2 ^ 32) := by
  have hlen : (UInt32.ofNat data.length).toNat = data.length % 2 ^ 32 := UInt32.toNat_ofNat
  have hlt : b.peek < UInt32.ofNat data.length ↔
      S.cap - q.items.length < data.length % 2 ^ 32 := by
    rw [UInt32.lt_iff_toNat_lt, hlen, h.toNat_peek]
  have htake : slice (fun i => data.getD i 0) 0 (UInt32.ofNat data.length).toNat =
      data.take (data.length % 2 ^ 32) := by
    rw [hlen]
    exact slice_getD (Nat.mod_le _ _)
  split
  · next hfull =>
    rw [LoopBuffer.pushString, push_of_full (hlt.2 hfull)]
    exact ⟨q, h, rfl, rfl, rfl⟩
  · next hfit =>
    have hfit' := mt hlt.1 hfit
    have hroom := not_not.1 (mt h.peek_lt_iff.2 hfit')
    rw [LoopBuffer.pushString, push_of_fits hfit']
    exact ⟨_, h.push (by rwa [length_slice]), rfl, rfl, congrArg (q.items ++ ·) htake⟩

theorem pushString_of_full {data : List UInt8} {dataLen : UInt32}
    (hlen : data.length = dataLen.toNat) (hfull : b.peek < dataLen) :
    b.pushString data = (b, 0) := by
  rw [LoopBuffer.pushString, hlen, UInt32.ofNat_toNat, push_of_full hfull]

theorem pushString_of_fits {data : List UInt8} {dataLen : UInt32}
    (hlen : data.length = dataLen.toNat) (hfit : ¬ b.peek < dataLen) :
    b.pushString data =
      ({ b with
          tail := b.tail + dataLen
          buffer := ringWrite b.buffer S.cap b.tail.toNat data }, dataLen) := by
  rw [LoopBuffer.pushString, hlen, UInt32.ofNat_toNat, push_of_fits hfit, slice_getD hlen.ge, ← hlen,
    List.take_length]

/-- A string that fits stands behind what was there. -/
theorem readable_pushString (h : Holds b q) {data : List UInt8} (hlen : data.length < 2 ^ 32)
    (hfits : data.length ≤ b.peek.toNat) :
    (b.pushString data).1.readable = b.readable ++ data := by
  obtain ⟨q', h', -, hitems⟩ := h.pushString data
  rw [h.toNat_peek] at hfits
  rw [Nat.mod_eq_of_lt hlen, if_neg (Nat.not_lt.2 hfits), List.take_length] at hitems
  rw [h'.readable, h.readable, hitems.2]

end Holds

/-! ## Several fragments -/

/-- What `mpush` takes of the fragments, with room for `free` bytes: those before the first one whose
length, as a `uint32_t`, is zero or does not fit. -/
def taken : Nat → List (List UInt8) → List UInt8
  | _, [] => []
  | free, data :: rest =>
    let n := data.length % 2 ^ 32
    if n = 0 ∨ free < n then [] else data.take n ++ taken (free - n) rest

theorem length_taken_le (free : Nat) (pieces : List (List UInt8)) :
    (taken free pieces).length ≤ free := by
  induction pieces generalizing free with
  | nil => exact Nat.zero_le _
  | cons data rest ih =>
    rw [taken]
    split
    · exact Nat.zero_le _
    · next hn =>
      have hrest := ih (free - data.length % 2 ^ 32)
      have htake := List.length_take_le (data.length % 2 ^ 32) data
      rw [List.length_append]
      omega

theorem Holds.mpush {b : LoopBuffer S} {q : BoundedQueue UInt8 S.cap} (h : Holds b q)
    (pieces : List (List UInt8)) :
    ∃ q', Holds (b.mpush pieces).1 q' ∧ (b.mpush pieces).1.head = b.head ∧
      q'.items = q.items ++ taken (S.cap - q.items.length) pieces ∧
      (b.mpush pieces).2 =
        (UInt32.ofNat (taken (S.cap - q.items.length) pieces).length).toInt32 := by
  induction pieces generalizing b q with
  | nil => exact ⟨q, h, rfl, (List.append_nil _).symm, rfl⟩
  | cons data rest ih =>
    obtain ⟨q₁, h₁, hhead, hpush⟩ := h.pushString data
    have hpos : 0 < UInt32.ofNat data.length ↔ data.length % 2 ^ 32 ≠ 0 := by
      rw [UInt32.lt_iff_toNat_lt, UInt32.toNat_ofNat]
      exact Nat.pos_iff_ne_zero
    rw [LoopBuffer.mpush, taken]
    split at hpush
    · next hfull =>
      -- the fragment does not fit
      rw [hpush.1, if_neg (UInt32.lt_irrefl 0), if_pos (.inr hfull)]
      rw [hpush.2] at h₁
      exact ⟨q, h₁, hhead, (List.append_nil _).symm, rfl⟩
    · next hfit =>
      obtain ⟨hret, hitems⟩ := hpush
      rw [hret]
      by_cases hzero : data.length % 2 ^ 32 = 0
      · -- it is empty for the result
        rw [if_neg (mt hpos.1 (not_not.2 hzero)), if_pos (.inl hzero)]
        rw [hzero, List.take_zero] at hitems
        exact ⟨q₁, h₁, hhead, hitems, rfl⟩
      · have hlen : q₁.items.length = q.items.length + data.length % 2 ^ 32 := by
          rw [hitems, List.length_append, List.length_take_of_le (Nat.mod_le _ _)]
        have hfree : S.cap - q₁.items.length = S.cap - q.items.length - data.length % 2 ^ 32 := by
          rw [hlen, Nat.sub_add_eq]
        obtain ⟨q₂, h₂, hhead₂, hitems₂, hret₂⟩ := ih h₁
        rw [hfree] at hitems₂ hret₂
        rw [if_pos (hpos.2 hzero), if_neg (not_or.2 ⟨hzero, hfit⟩)]
        refine ⟨q₂, h₂, hhead₂.trans hhead, ?_, ?_⟩
        · rw [hitems₂, hitems, List.append_assoc]
        · have hmod : UInt32.ofNat (data.length % 2 ^ 32) = UInt32.ofNat data.length :=
            UInt32.ofNat_mod_size
          dsimp only
          rw [hret₂, List.length_append, List.length_take_of_le (Nat.mod_le _ _),
            UInt32.ofNat_add, hmod, UInt32.toUInt32_toInt32]

/-- Behind an empty fragment there are only empty ones. -/
def EmptyLast : List (List UInt8) → Prop
  | [] => True
  | data :: rest => if data = [] then rest.flatten = [] else EmptyLast rest

theorem taken_eq_flatten_iff {free : Nat} (hfree : free < 2 ^ 32) {pieces : List (List UInt8)} :
    taken free pieces = pieces.flatten ↔ pieces.flatten.length ≤ free ∧ EmptyLast pieces := by
  induction pieces generalizing free with
  | nil => exact iff_of_true rfl ⟨Nat.zero_le _, trivial⟩
  | cons data rest ih =>
    rw [taken, EmptyLast, List.flatten_cons, List.length_append]
    by_cases hnil : data = []
    · subst hnil
      rw [if_pos (.inl rfl), if_pos rfl, List.nil_append]
      constructor
      · intro h
        rw [← h]
        exact ⟨Nat.zero_le _, rfl⟩
      · exact fun h => h.2.symm
    · have hpos := List.length_pos_iff.2 hnil
      rw [if_neg hnil]
      by_cases hfit : data.length ≤ free
      · have hmod : data.length % 2 ^ 32 = data.length :=
          Nat.mod_eq_of_lt (Nat.lt_of_le_of_lt hfit hfree)
        rw [hmod, if_neg (by omega), List.take_length, List.append_cancel_left_eq,
          ih (Nat.lt_of_le_of_lt (Nat.sub_le _ _) hfree)]
        exact and_congr_left' (by omega)
      · -- what is taken is too short
        refine iff_of_false (fun h => ?_) (fun h => absurd h.1 (by omega))
        have hlen := length_taken_le free (data :: rest)
        rw [taken, h, List.length_append] at hlen
        omega

theorem taken_eq_nil_iff {free : Nat} {pieces : List (List UInt8)} :
    taken free pieces = [] ↔
      ∀ data ∈ pieces.head?, data.length % 2 ^ 32 = 0 ∨ free < data.length % 2 ^ 32 := by
  cases pieces with
  | nil => simp [taken]
  | cons data rest =>
    rw [taken, List.head?_cons]
    split
    · next h => exact iff_of_true rfl (fun _ hd => Option.some.inj hd ▸ h)
    · next h =>
      refine iff_of_false (fun hnil => h (.inl ?_)) (fun hall => h (hall data rfl))
      have hlen := congrArg List.length (List.append_eq_nil_iff.1 hnil).1
      rwa [List.length_take_of_le (Nat.mod_le _ _)] at hlen

/-- What is promised of `mpush`: all fragments or nothing. -/
def AllOrNothing (b : LoopBuffer S) (pieces : List (List UInt8)) : Prop :=
  let r := b.mpush pieces
  (r.1.readable = b.readable ++ pieces.flatten ∧ r.2.toInt = pieces.flatten.length) ∨
    (b.peek.toNat < pieces.flatten.length ∧ r.2 = 0 ∧ r.1.head = b.head ∧ r.1.tail = b.tail ∧
      r.1.readable = b.readable)

instance AllOrNothing.decidable (b : LoopBuffer S) (pieces : List (List UInt8)) :
    Decidable (AllOrNothing b pieces) :=
  inferInstanceAs (Decidable (_ ∨ _))

/-- The first fragment decides: all fit, in a sum that an `int32_t` holds, and none stands behind an
empty one, or not all fit, and the first one is already refused or has no length. -/
def FirstDecides (free : Nat) (pieces : List (List UInt8)) : Prop :=
  (pieces.flatten.length ≤ free ∧ pieces.flatten.length < 2 ^ 31 ∧ EmptyLast pieces) ∨
    (free < pieces.flatten.length ∧
      ∀ data ∈ pieces.head?, data.length % 2 ^ 32 = 0 ∨ free < data.length % 2 ^ 32)

theorem toInt_ofNat {n : Nat} : (UInt32.ofNat n).toInt32.toInt = n ↔ n < 2 ^ 31 := by
  refine ⟨fun h => ?_, Int32.toInt_ofNat_of_lt⟩
  have hlt := (UInt32.ofNat n).toInt32.toInt_lt
  rw [h] at hlt
  exact_mod_cast hlt

theorem Holds.allOrNothing_iff {b : LoopBuffer S} {q : BoundedQueue UInt8 S.cap} (h : Holds b q)
    {pieces : List (List UInt8)} : AllOrNothing b pieces ↔ FirstDecides b.peek.toNat pieces := by
  obtain ⟨q', h', hhead, hitems, hret⟩ := h.mpush pieces
  have hfree : S.cap - q.items.length < 2 ^ 32 := Nat.lt_of_le_of_lt (Nat.sub_le _ _) S.cap_lt
  rw [AllOrNothing, FirstDecides, ← taken_eq_nil_iff, h'.readable, h.readable, hitems, hret, hhead,
    h.toNat_peek, List.append_cancel_left_eq, List.append_right_eq_self]
  apply or_congr
  · constructor
    · intro ⟨htaken, hsum⟩
      rw [← htaken, toInt_ofNat] at hsum
      have hall := (taken_eq_flatten_iff hfree).1 htaken
      exact ⟨hall.1, htaken ▸ hsum, hall.2⟩
    · intro ⟨hfit, hsum, hlast⟩
      have htaken := (taken_eq_flatten_iff hfree).2 ⟨hfit, hlast⟩
      refine ⟨htaken, ?_⟩
      rw [htaken]
      exact toInt_ofNat.2 hsum
  · refine and_congr_right fun _ => ⟨fun hnothing => hnothing.2.2.2, fun hnil => ?_⟩
    rw [hnil, List.append_nil] at hitems
    rw [hnil, h'.tail, h.tail, hhead, hitems]
    exact ⟨rfl, rfl, rfl, rfl⟩

/-! ## Encrypted data -/

@[simp] theorem Encrypter.length_run {encrypter : Encrypter σ τ} {shared : τ} {data : List UInt8} :
    (encrypter.run shared data).2.length = data.length := Transducer.length_run

/-- Encrypting what was just copied is copying what is encrypted. -/
theorem Encrypter.apply_write {encrypter : Encrypter σ τ} {shared : τ} {m : Nat → UInt8}
    {pos n : Nat} {bytes : List UInt8} (hn : bytes.length = n) :
    encrypter.apply shared (write m pos bytes) pos n =
      ({ encrypter with held := (encrypter.run shared bytes).1.1 },
        (encrypter.run shared bytes).1.2, write m pos (encrypter.run shared bytes).2) := by
  rw [Encrypter.apply, ← hn, slice_write_self, write_write Encrypter.length_run.ge]

/-- Behind a first segment the encrypter goes on with the state that the segment left. -/
theorem Encrypter.run_segments (encrypter : Encrypter σ τ) (shared : τ) {data : List UInt8} {n : Nat}
    (hn : n ≤ data.length) :
    let first := encrypter.run shared (data.take n)
    let second := { encrypter with held := first.1.1 }.run first.1.2 (data.drop n)
    (encrypter.run shared data).1 = second.1 ∧ (encrypter.run shared data).2.take n = first.2 ∧
      (encrypter.run shared data).2.drop n = second.2 :=
  ⟨Transducer.state_run n, Transducer.take_run hn, Transducer.drop_run hn⟩

theorem Holds.pushEncrypted_of_fits {b : LoopBuffer S} (data : Nat → UInt8) {dataLen : UInt32}
    (encrypter : Encrypter σ τ) (shared : τ) (hfit : ¬ b.peek < dataLen) :
    ∃ blocks, blocks.flatten = slice data 0 dataLen.toNat ∧
      b.pushEncrypted data dataLen encrypter shared =
        { buf :=
            { b with
              tail := b.tail + dataLen
              buffer := ringWrite b.buffer S.cap b.tail.toNat
                (encrypter.run shared (slice data 0 dataLen.toNat)).2 }
          shared := (encrypter.run shared (slice data 0 dataLen.toNat)).1.2
          blocks := blocks
          ret := dataLen } := by
  obtain ⟨room, hroom⟩ : ∃ room, room = S.val - (b.tail &&& (S.val - 1)) := ⟨_, rfl⟩
  have htoNat : S.cap - b.tail.toNat % S.cap = room.toNat := by rw [hroom, toNat_rest]
  rw [LoopBuffer.peek] at hfit
  rw [LoopBuffer.pushEncrypted, if_neg hfit, ringWrite, Encrypter.length_run, length_slice, htoNat]
  dsimp only
  rw [← hroom, ← S.toNat_and_mask]
  by_cases hwrap : room < dataLen
  · -- in two segments: the state behind the first is the state before the second
    have hle : room.toNat ≤ dataLen.toNat := UInt32.le_of_lt hwrap
    have hle' : room.toNat ≤ (slice data 0 dataLen.toNat).length := by rwa [length_slice]
    have hleft : (dataLen - room).toNat = dataLen.toNat - room.toNat :=
      UInt32.toNat_sub_of_le _ _ hle
    have hfirst : slice data 0 room.toNat = (slice data 0 dataLen.toNat).take room.toNat :=
      (take_slice hle).symm
    have hsecond : slice data room.toNat (dataLen - room).toNat =
        (slice data 0 dataLen.toNat).drop room.toNat := by
      rw [drop_slice hle, hleft, Nat.zero_add]
    obtain ⟨hstate, htake, hdrop⟩ := encrypter.run_segments shared hle'
    refine ⟨[slice data 0 room.toNat, slice data room.toNat (dataLen - room).toNat], ?_, ?_⟩
    · rw [hfirst, hsecond, List.flatten_cons, List.flatten_singleton, List.take_append_drop]
    · rw [if_pos hwrap, if_pos (UInt32.lt_iff_toNat_lt.1 hwrap), Encrypter.apply_write length_slice]
      dsimp only
      rw [Encrypter.apply_write length_slice, slice_write_of_length length_slice,
        slice_write_of_length length_slice, hstate, htake, hdrop, hfirst, hsecond]
  · refine ⟨[slice data 0 dataLen.toNat], List.flatten_singleton, ?_⟩
    rw [if_neg hwrap, if_neg (mt UInt32.lt_iff_toNat_lt.2 hwrap), Encrypter.apply_write length_slice,
      slice_write_of_length length_slice]

/-- What is promised of the push with an encrypter, for a buffer `b` and the plain push of the data
encrypted in one go. Of the state it says what becomes of the part that the encrypter refers to. -/
structure EncryptsFirst (b : LoopBuffer S) (data : List UInt8) (encrypter : Encrypter σ τ)
    (shared : τ) (r : Encrypted S τ) : Prop where
  buf : r.buf = (b.pushString (encrypter.run shared data).2).1
  ret : r.ret = (b.pushString (encrypter.run shared data).2).2
  fits : data.length ≤ b.peek.toNat → r.shared = (encrypter.run shared data).1.2 ∧
    r.blocks.flatten = data ∧ r.buf.readable = b.readable ++ (encrypter.run shared data).2
  full : b.peek.toNat < data.length → r.shared = shared ∧ r.blocks = [] ∧ r.buf = b

/-- The caller's encrypter, which the push does not change, and what it refers to have the state
behind the data. -/
def Advances (data : List UInt8) (encrypter : Encrypter σ τ) (shared : τ) (r : Encrypted S τ) :
    Prop :=
  (encrypter.held, r.shared) = (encrypter.run shared data).1

theorem Holds.encryptsFirst {b : LoopBuffer S} {q : BoundedQueue UInt8 S.cap} (h : Holds b q)
    (data : Nat → UInt8) (dataLen : UInt32) (encrypter : Encrypter σ τ) (shared : τ) :
    EncryptsFirst b (slice data 0 dataLen.toNat) encrypter shared
      (b.pushEncrypted data dataLen encrypter shared) := by
  have hlen : (encrypter.run shared (slice data 0 dataLen.toNat)).2.length = dataLen.toNat := by
    rw [Encrypter.length_run, length_slice]
  by_cases hfull : b.peek < dataLen
  · have hpush : b.pushEncrypted data dataLen encrypter shared = ⟨b, shared, [], 0⟩ := if_pos hfull
    have hplain := Holds.pushString_of_full hlen hfull
    rw [hpush]
    constructor
    · rw [hplain]
    · rw [hplain]
    · intro hfits
      rw [length_slice] at hfits
      exact absurd hfull (Nat.not_lt.2 hfits)
    · exact fun _ => ⟨rfl, rfl, rfl⟩
  · obtain ⟨blocks, hblocks, hpush⟩ := Holds.pushEncrypted_of_fits data encrypter shared hfull
    have hplain := Holds.pushString_of_fits hlen hfull
    have hbuf : (b.pushEncrypted data dataLen encrypter shared).buf =
        (b.pushString (encrypter.run shared (slice data 0 dataLen.toNat)).2).1 := by
      rw [hpush, hplain]
    constructor
    · exact hbuf
    · rw [hpush, hplain]
    · intro hfits
      rw [length_slice, ← hlen] at hfits
      refine ⟨by rw [hpush], by rw [hpush, hblocks], ?_⟩
      rw [hbuf]
      exact h.readable_pushString (hlen.trans_lt dataLen.toNat_lt) hfits
    · intro hlt
      rw [length_slice] at hlt
      exact absurd hlt hfull

/-! ## Every operation -/

inductive Operation
  | call (c : Call)
  | mpush (pieces : List (List UInt8))
  | pushEncrypted (σ τ : Type) (data : Nat → UInt8) (dataLen : UInt32) (encrypter : Encrypter σ τ)
    (shared : τ)

/-- The calls together with the pushes of fragments and of encrypted data. -/
def operations (S : BufferSize) : Machine (Session S) Operation where
  enabled s
    | .call c => (calls S).enabled s c
    | .mpush _ | .pushEncrypted .. => True
  next s
    | .call c => (calls S).next s c
    | .mpush pieces => { s with buf := (s.buf.mpush pieces).1 }
    | .pushEncrypted _ _ data dataLen encrypter shared =>
      { s with buf := (s.buf.pushEncrypted data dataLen encrypter shared).buf }

/-- The buffers that operations lead to, from equal counters of any value on. -/
def Reachable (b : LoopBuffer S) : Prop :=
  ∃ counter buffer os, (operations S).Runs (Session.start counter buffer) os ∧
    ((operations S).exec (Session.start counter buffer) os).buf = b

theorem operations_next {s : Session S} {o : Operation} (ho : (operations S).enabled s o)
    (h : ∃ q, Implements s q) : ∃ q, Implements ((operations S).next s o) q := by
  obtain ⟨q, h⟩ := h
  -- behind a push there are at least the bytes of before
  have grown : ∀ {q' : BoundedQueue UInt8 S.cap} {more : List UInt8}, q'.items = q.items ++ more →
      s.exposed ≤ q'.items.length := by
    intro q' more hitems
    rw [hitems, List.length_append]
    exact Nat.le_trans h.exposed (Nat.le_add_right _ _)
  cases o with
  | call c =>
    obtain ⟨q', _, h'⟩ := implements_next ho h
    exact ⟨q', h'⟩
  | mpush pieces =>
    obtain ⟨q', h', _, hitems, _⟩ := h.holds.mpush pieces
    exact ⟨q', h', grown hitems⟩
  | pushEncrypted σ τ data dataLen encrypter shared =>
    have hbuf := (h.holds.encryptsFirst data dataLen encrypter shared).buf
    obtain ⟨q', h', _, hitems⟩ :=
      h.holds.pushString (encrypter.run shared (slice data 0 dataLen.toNat)).2
    rw [← hbuf] at h'
    refine ⟨q', h', ?_⟩
    split at hitems
    · rw [hitems.2]
      exact h.exposed
    · exact grown hitems.2

theorem Reachable.holds {b : LoopBuffer S} (h : Reachable b) : ∃ q, Holds b q := by
  obtain ⟨counter, buffer, os, hruns, rfl⟩ := h
  have hinv : ∃ q, Implements ((operations S).exec (Session.start counter buffer) os) q :=
    hruns.invariant (fun s o => operations_next) ⟨.nil, implements_start⟩
  exact hinv.imp fun q himpl => himpl.holds

theorem reachable_start (counter : UInt32) (buffer : Nat → UInt8) :
    Reachable (Session.start counter buffer : Session S).buf :=
  ⟨counter, buffer, [], trivial, rfl⟩

/-- **When `mpush` is all or nothing**, from every buffer that operations lead to: exactly when the
first fragment decides it. -/
theorem mpush_allOrNothing_iff {b : LoopBuffer S} (h : Reachable b)
    (pieces : List (List UInt8)) : AllOrNothing b pieces ↔ FirstDecides b.peek.toNat pieces := by
  obtain ⟨q, hq⟩ := h.holds
  exact hq.allOrNothing_iff

/-- Two bytes and one go into a buffer of four. -/
theorem mpush_allOrNothing_iff_fits :
    AllOrNothing (Session.start 0 fun _ => 0 : Session four).buf [[1, 2], [3]] :=
  (mpush_allOrNothing_iff (reachable_start _ _) _).2 (.inl ⟨by decide, by decide, trivial⟩)

/-- Of two bytes and three more the first two stay in a buffer of four. -/
theorem mpush_allOrNothing_of_cut :
    ¬ ∀ b : LoopBuffer four, Reachable b → ∀ pieces, AllOrNothing b pieces := by
  intro h
  have hcut := h _ (reachable_start 0 fun _ => 0) [[1, 2], [3, 4, 5]]
  revert hcut
  decide

/-- **A push with an encrypter is the plain push of the encrypted data**, from every buffer that
operations lead to, wherever the block wraps. A block that does not fit reaches no encrypter; behind
one that fits the encrypter has the state behind the data exactly if what it holds of it is as it was
before. -/
theorem pushEncrypted_eq_push {b : LoopBuffer S} (h : Reachable b) (data : Nat → UInt8)
    (dataLen : UInt32) (encrypter : Encrypter σ τ) (shared : τ) :
    EncryptsFirst b (slice data 0 dataLen.toNat) encrypter shared
        (b.pushEncrypted data dataLen encrypter shared) ∧
      (dataLen.toNat ≤ b.peek.toNat →
        (Advances (slice data 0 dataLen.toNat) encrypter shared
            (b.pushEncrypted data dataLen encrypter shared) ↔
          encrypter.held = (encrypter.run shared (slice data 0 dataLen.toNat)).1.1)) := by
  obtain ⟨q, hq⟩ := h.holds
  have hfirst := hq.encryptsFirst data dataLen encrypter shared
  refine ⟨hfirst, fun hfits => ?_⟩
  rw [Advances, (hfirst.fits (by rwa [length_slice])).1, Prod.ext_iff, and_iff_left rfl]

/-- A cipher that adds a counter. -/
def counting : Transducer UInt8 UInt8 UInt8 := ⟨fun count byte => (count + 1, byte + count)⟩

/-- The counter is outside of the encrypter. -/
def countingOutside : Encrypter Unit UInt8 where
  cipher := ⟨fun s byte => (((), (counting.step s.2 byte).1), (counting.step s.2 byte).2)⟩
  held := ()

/-- The counter is in the encrypter. -/
def countingInside : Encrypter UInt8 Unit where
  cipher := ⟨fun s byte => (((counting.step s.1 byte).1, ()), (counting.step s.1 byte).2)⟩
  held := 7

/-- Three bytes around the end of the array. -/
theorem pushEncrypted_eq_push_wrapping :
    EncryptsFirst (Session.start 2 fun _ => 0 : Session four).buf
        (slice UInt8.ofNat 0 (3 : UInt32).toNat) countingOutside 7
        ((Session.start 2 fun _ => 0 : Session four).buf.pushEncrypted UInt8.ofNat 3
          countingOutside 7) ∧
      Advances (slice UInt8.ofNat 0 (3 : UInt32).toNat) countingOutside 7
        ((Session.start 2 fun _ => 0 : Session four).buf.pushEncrypted UInt8.ofNat 3
          countingOutside 7) :=
  have h := pushEncrypted_eq_push (reachable_start 2 fun _ => 0 : Reachable
    (Session.start 2 fun _ => 0 : Session four).buf) UInt8.ofNat 3 countingOutside 7
  ⟨h.1, (h.2 (by decide)).2 rfl⟩

/-- A counter in the encrypter is not advanced for the caller, whose next push counts from the same
number again. -/
theorem held_state_not_advanced :
    ¬ ∀ (b : LoopBuffer four), Reachable b → ∀ (data : Nat → UInt8) (dataLen : UInt32)
      (encrypter : Encrypter UInt8 Unit) (shared : Unit),
      EncryptsFirst b (slice data 0 dataLen.toNat) encrypter shared
          (b.pushEncrypted data dataLen encrypter shared) ∧
        (dataLen.toNat ≤ b.peek.toNat → Advances (slice data 0 dataLen.toNat) encrypter shared
          (b.pushEncrypted data dataLen encrypter shared)) := by
  intro h
  have hadvances := (h _ (reachable_start 0 fun _ => 0) UInt8.ofNat 1 countingInside ()).2 (by decide)
  have hheld := congrArg Prod.fst hadvances
  revert hheld
  decide

end SNet.Utils
