import Mathlib.Algebra.Order.BigOperators.Group.List
import Mathlib.Algebra.Order.Group.Nat
import SNet.Library.Bytes
import SNet.Tcp.Framing
import SNet.Tcp.SendStream

/-!
# Pipe messages

`PipeMsgHead`, the `handle_package` of `PipeConnection` and the encoding of a message by
`msend(head, body)`. The `handle_package` takes the fill level for the length of the rest as
`process_data` passes it, and still waits at every rest (`handlePackage_waits`): a head that stale
bytes complete announces at least the 16 bytes that are not there. So every message that reaches
the stream whole is delivered, whatever the chunks (`codec_iff`).

On the sending side a message is cut where `send_buffer` reaches a multiple of `2 ^ 32` bytes behind
its head: `write_data` returns the size as a `uint32_t`, and `mpush` takes the 0 for a failure
(`body_lost`).
-/

namespace SNet.Pipe

open Tcp Memory

structure PipeMsgHead where
  length : UInt32
  type : UInt32
  data : UInt64
  deriving DecidableEq, Repr

/-- `sizeof(PipeMsgHead)`. -/
def sizeofHead : Nat := 16

/-- The object representation. -/
def PipeMsgHead.toBytes (o : ByteOrder) (head : PipeMsgHead) : List UInt8 :=
  o.toBytes 4 head.length.toNat ++ o.toBytes 4 head.type.toNat ++ o.toBytes 8 head.data.toNat

/-- What `(PipeMsgHead *)data` reads. -/
def PipeMsgHead.ofBytes (o : ByteOrder) (bs : List UInt8) : PipeMsgHead where
  length := .ofNat (o.ofBytes (bs.take 4))
  type := .ofNat (o.ofBytes ((bs.drop 4).take 4))
  data := .ofNat (o.ofBytes ((bs.drop 8).take 8))

/-- `PipeConnection::handle_package`. The comparison is made in `size_t`. -/
def handlePackage (o : ByteOrder) : PackageHandler := fun buf data len =>
  if len < sizeofHead then 0
  else
    let length := (PipeMsgHead.ofBytes o (slice buf data sizeofHead)).length.toNat
    if len < length + sizeofHead then 0 else Int.bmod (sizeofHead + length) (2 ^ 32)

/-- A message that fits `read_buffer`, with its length in its head. -/
structure PipeMsg where
  head : PipeMsgHead
  body : List UInt8
  length_eq : head.length.toNat = body.length
  le_size : sizeofHead + body.length ≤ kReadBufferSize

/-- The arguments of `msend(head, body)`. -/
def PipeMsg.fragments (o : ByteOrder) (m : PipeMsg) : List Fragment :=
  [.pod (m.head.toBytes o), .string m.body]

def PipeMsg.bytes (o : ByteOrder) (m : PipeMsg) : List UInt8 := m.head.toBytes o ++ m.body

/-- What `msend(head, body)` appends to a `send_buffer` that holds `backlog`. -/
def sent (o : ByteOrder) (backlog : List UInt8) (m : PipeMsg) : List UInt8 :=
  (mpush backlog (m.fragments o)).1.drop backlog.length

/-- The stream that the calls of `msend` produce, each of which finds its own backlog. -/
def stream (o : ByteOrder) (calls : List (List UInt8 × PipeMsg)) : List UInt8 :=
  calls.flatMap fun call => sent o call.1 call.2

/-- The head and the body that `handle_data` finds in a package. -/
def readMsg (o : ByteOrder) (p : List UInt8) : PipeMsgHead × List UInt8 :=
  (.ofBytes o p, p.drop sizeofHead)

/-- The framing of the stream by the lengths in the heads. -/
def framing (o : ByteOrder) : Framing UInt8 where
  header := sizeofHead
  limit := kReadBufferSize
  announce head := sizeofHead + (PipeMsgHead.ofBytes o head).length.toNat

variable {o : ByteOrder} {m : PipeMsg} {buf : Nat → UInt8} {pos : Nat} {c : TcpConnection}
  {ctl : Bool} {chunks : List (List UInt8)} {backlog p : List UInt8}
  {calls : List (List UInt8 × PipeMsg)}

/-! ## Encoding -/

@[simp] theorem PipeMsgHead.length_toBytes {head : PipeMsgHead} :
    (head.toBytes o).length = sizeofHead := by
  simp [PipeMsgHead.toBytes, sizeofHead]

theorem PipeMsgHead.ofBytes_append {head : PipeMsgHead} {rest : List UInt8} :
    PipeMsgHead.ofBytes o (head.toBytes o ++ rest) = head := by
  obtain ⟨length, type, data⟩ := head
  simp only [PipeMsgHead.toBytes, PipeMsgHead.ofBytes, List.append_assoc, PipeMsgHead.mk.injEq]
  refine ⟨?_, ?_, ?_⟩
  · rw [List.take_left' (by simp), ByteOrder.ofBytes_toBytes length.toNat_lt, UInt32.ofNat_toNat]
  · rw [List.drop_left' (by simp), List.take_left' (by simp),
      ByteOrder.ofBytes_toBytes type.toNat_lt, UInt32.ofNat_toNat]
  · rw [← List.append_assoc, List.drop_left' (by simp), List.take_left' (by simp),
      ByteOrder.ofBytes_toBytes data.toNat_lt, UInt64.ofNat_toNat]

@[simp] theorem PipeMsg.length_bytes : (m.bytes o).length = sizeofHead + m.body.length := by
  rw [PipeMsg.bytes, List.length_append, PipeMsgHead.length_toBytes]

theorem readMsg_bytes : readMsg o (m.bytes o) = (m.head, m.body) := by
  rw [readMsg, PipeMsg.bytes, PipeMsgHead.ofBytes_append, List.drop_left' (by simp)]

theorem PipeMsg.genuine : (framing o).Genuine (m.bytes o) := by
  refine ⟨?_, ?_, ?_, ?_⟩
  · rw [PipeMsg.length_bytes, sizeofHead]; omega
  · rw [PipeMsg.length_bytes]; exact Nat.le_add_right _ _
  · rw [PipeMsg.length_bytes]; exact m.le_size
  · have htake : (m.bytes o).take (framing o).header = m.head.toBytes o ++ [] := by
      rw [PipeMsg.bytes, List.append_nil]
      exact List.take_left' PipeMsgHead.length_toBytes
    rw [htake, framing]
    dsimp only
    rw [PipeMsgHead.ofBytes_append, m.length_eq, PipeMsg.length_bytes]
    rfl

/-- The body is lost where the size behind the head is a multiple of `2 ^ 32`. -/
theorem sent_eq : sent o backlog m =
    if (backlog.length + sizeofHead) % 2 ^ 32 = 0 then m.head.toBytes o else m.bytes o := by
  simp only [sent, PipeMsg.fragments, mpush, writeData, Fragment.bytes, List.length_append,
    PipeMsgHead.length_toBytes]
  by_cases hlen : (backlog.length + sizeofHead) % 2 ^ 32 = 0
  · rw [if_neg (by omega), if_pos hlen, List.drop_left]
  · rw [if_pos (by omega), if_neg hlen]
    split <;> rw [List.append_assoc, List.drop_left, PipeMsg.bytes]

/-! ## Decoding -/

/-- The result is the announced length if all of it lies before the fill level. -/
theorem handlePackage_eq {data len : Nat} (hlen : len ≤ kReadBufferSize) :
    handlePackage o buf data len =
      if len < sizeofHead ∨ (len : Int) < (framing o).announce (slice buf data sizeofHead) then 0
      else (framing o).announce (slice buf data sizeofHead) := by
  obtain ⟨length, hlength⟩ :
      ∃ n, n = (PipeMsgHead.ofBytes o (slice buf data sizeofHead)).length.toNat := ⟨_, rfl⟩
  have hann : (framing o).announce (slice buf data sizeofHead) = sizeofHead + length := by
    rw [hlength]; rfl
  rw [hann, handlePackage, ← hlength]
  by_cases hhead : len < sizeofHead
  · rw [if_pos hhead, if_pos (.inl hhead)]
  · by_cases hbody : len < length + sizeofHead
    · rw [if_neg hhead, if_pos hbody, if_pos (.inr (by omega))]
    · rw [if_neg hhead, if_neg hbody, if_neg (by omega)]
      have : kReadBufferSize = 8388608 := rfl
      rw [Int.bmod_def]
      omega

theorem handlePackage_follows (hpos : pos ≤ kReadBufferSize) :
    Follows (handlePackage o) (framing o) buf pos := by
  intro readPos n hle h
  obtain ⟨hheader, hann, -, -, hn⟩ := Framing.first_eq_some.1 h
  rw [length_slice] at hheader hn
  rw [take_slice hheader] at hann
  have hsize : (framing o).header = sizeofHead := rfl
  rw [hsize] at hheader hann
  rw [handlePackage_eq hpos, hann, if_neg (by omega)]

/-- **A pipe waits at every rest.** A head of which a part is stale announces more than the part. -/
theorem handlePackage_waits (hpos : pos ≤ kReadBufferSize) :
    Waits (handlePackage o) (framing o) buf pos := by
  intro hne
  have hle := @length_rest_le (framing o) buf pos
  have hslice := @slice_rest (framing o) buf pos
  have hnone := @Framing.first_unframe_snd _ (framing o) (slice buf 0 pos)
  generalize ((framing o).unframe (slice buf 0 pos)).2 = r at *
  rw [handlePackage_eq hpos]
  split
  · omega
  · next hann =>
    refine ⟨by omega, .inr ?_⟩
    by_cases hhead : sizeofHead ≤ r.length
    · -- the head is there, and announces more than has arrived
      have htake : slice buf (pos - r.length) sizeofHead = r.take sizeofHead := by
        rw [← take_slice hhead, hslice]
      rw [htake] at hann ⊢
      have hsize : (framing o).header = sizeofHead := rfl
      have hlimit : (framing o).limit = kReadBufferSize := rfl
      rw [Framing.first_eq_none, hsize, hlimit] at hnone
      have hpos' : 0 < (framing o).announce (r.take sizeofHead) := by
        simp only [framing, sizeofHead]; omega
      omega
    · simp only [framing]
      omega

/-- What is delivered of any stream, in any chunks that fit. -/
theorem feed_handlePackage
    (hfits : EachCall (fun _ pos => pos ≤ kReadBufferSize) (handlePackage o) ctl c chunks)
    (hpos : c.readBufferPos = 0) :
    (feed (handlePackage o) ctl c chunks).2 =
      ((framing o).unframe chunks.flatten).1.map .handleData := by
  have hunread : c.unread = [] := by rw [TcpConnection.unread, hpos, slice_zero]
  rw [feed_decode (hfits.mono fun _ _ => handlePackage_follows)
    (hfits.mono fun _ _ => handlePackage_waits), hunread, Framing.decode_eq Framing.first_nil,
    List.nil_append]

/-- The packages of a pipe hold their heads. -/
theorem sizeofHead_le {w : List UInt8} (hp : p ∈ ((framing o).unframe w).1) :
    sizeofHead ≤ p.length := by
  obtain ⟨head, hann⟩ := Framing.announce_of_mem hp
  have : sizeofHead ≤ (framing o).announce head := by
    simp only [framing]
    omega
  omega

theorem length_sent_le : (sent o backlog m).length ≤ (m.bytes o).length := by
  rw [sent_eq]
  split
  · rw [PipeMsg.length_bytes, PipeMsgHead.length_toBytes]
    exact Nat.le_add_right _ _
  · exact Nat.le_refl _

theorem length_sent_lt (hbody : m.body ≠ []) (hlost : (backlog.length + sizeofHead) % 2 ^ 32 = 0) :
    (sent o backlog m).length < (m.bytes o).length := by
  rw [sent_eq, if_pos hlost, PipeMsg.length_bytes, PipeMsgHead.length_toBytes]
  have := List.length_pos_iff.2 hbody
  omega

/-- Messages that are all found were all sent whole. -/
theorem sent_whole_of_found
    (h : ((framing o).unframe (stream o calls)).1.map (readMsg o) =
      calls.map fun call => (call.2.head, call.2.body)) :
    ∀ call ∈ calls, call.2.body = [] ∨ (call.1.length + sizeofHead) % 2 ^ 32 ≠ 0 := by
  have hlength : ((framing o).unframe (stream o calls)).1.map List.length =
      calls.map fun call => (call.2.bytes o).length := by
    have hpkg : ∀ p ∈ ((framing o).unframe (stream o calls)).1,
        p.length = sizeofHead + (readMsg o p).2.length := by
      intro p hp
      have := sizeofHead_le hp
      rw [readMsg, List.length_drop]
      omega
    have := congrArg (List.map fun r => sizeofHead + r.2.length) h
    rw [List.map_map, List.map_map] at this
    rw [List.map_congr_left hpkg]
    exact this.trans (List.map_congr_left fun call _ => PipeMsg.length_bytes.symm)
  have hsum : (calls.map fun call => (call.2.bytes o).length).sum ≤
      (calls.map fun call => (sent o call.1 call.2).length).sum := by
    have hflat := congrArg List.length
      (Framing.flatten_unframe (F := framing o) (w := stream o calls))
    rw [List.length_append, List.length_flatten, hlength] at hflat
    refine Nat.le_trans (Nat.le.intro hflat) ?_
    rw [stream, List.length_flatMap]
  by_contra hlost
  simp only [not_forall, not_or, not_not] at hlost
  obtain ⟨call, hcall, hbody, hmod⟩ := hlost
  exact absurd hsum (Nat.not_le.2 (List.sum_lt_sum _ _ (fun _ _ => length_sent_le)
    ⟨call, hcall, length_sent_lt hbody hmod⟩))

theorem stream_of_whole
    (h : ∀ call ∈ calls, call.2.body = [] ∨ (call.1.length + sizeofHead) % 2 ^ 32 ≠ 0) :
    stream o calls = (calls.map fun call => call.2.bytes o).flatten := by
  rw [stream, List.flatMap_def]
  refine congrArg List.flatten (List.map_congr_left fun call hcall => ?_)
  rw [sent_eq]
  obtain hbody | hmod := h call hcall
  · rw [PipeMsg.bytes, hbody, List.append_nil, ite_self]
  · rw [if_neg hmod]

/-- **Pipe messages end to end.** The receiver finds the head and the body of every message, in
order, and nothing closes the connection, if and only if no `msend` with a body finds a backlog whose
size with the head is a multiple of `2 ^ 32`. -/
theorem codec_iff (hcut : chunks.flatten = stream o calls) (hpos : c.readBufferPos = 0)
    (hfits : EachCall (fun _ pos => pos ≤ kReadBufferSize) (handlePackage o) ctl c chunks) :
    ((packages (feed (handlePackage o) ctl c chunks).2).map (readMsg o) =
        calls.map (fun call => (call.2.head, call.2.body)) ∧
      .closing ∉ (feed (handlePackage o) ctl c chunks).2) ↔
    ∀ call ∈ calls, call.2.body = [] ∨ (call.1.length + sizeofHead) % 2 ^ 32 ≠ 0 := by
  rw [feed_handlePackage hfits hpos, packages_map_handleData, hcut]
  refine ⟨fun h => sent_whole_of_found h.1, fun h => ⟨?_, by simp⟩⟩
  have hgen : ∀ p ∈ calls.map fun call => call.2.bytes o, (framing o).Genuine p := by
    intro p hp
    obtain ⟨call, -, rfl⟩ := List.mem_map.1 hp
    exact call.2.genuine
  have hall := Framing.unframe_genuine (w := []) hgen
  rw [List.append_nil, Framing.unframe_nil, List.append_nil] at hall
  rw [stream_of_whole h, hall, List.map_map]
  exact List.map_congr_left fun call _ => readMsg_bytes

/-- A data message of one byte. -/
def oneByte : PipeMsg := ⟨⟨1, 3, 0⟩, [7], rfl, by decide⟩

theorem codec_iff_oneByte :
    (packages (feed (handlePackage .little) true { readBuffer := fun _ => 255 }
      [[1, 0, 0], [0, 3, 0, 0, 0, 0, 0, 0, 0, 0, 0, 0, 0, 7]]).2).map (readMsg .little) =
      [(oneByte.head, oneByte.body)] := by
  have hiff := @codec_iff .little { readBuffer := fun _ => 255 } true
    [[1, 0, 0], [0, 3, 0, 0, 0, 0, 0, 0, 0, 0, 0, 0, 0, 7]] [([], oneByte)] (by decide) rfl
    ⟨by decide, by decide, trivial⟩
  exact (hiff.2 (by decide)).1

/-- The message finds a backlog of `2 ^ 32 - 16` bytes. -/
theorem body_lost : ¬ ∀ (o : ByteOrder) (calls : List (List UInt8 × PipeMsg))
    (chunks : List (List UInt8)) (c : TcpConnection) (ctl : Bool),
    chunks.flatten = stream o calls → c.connStatus = .connOpen → c.readBufferPos = 0 →
    EachCall (fun _ pos => pos ≤ kReadBufferSize) (handlePackage o) ctl c chunks →
    (packages (feed (handlePackage o) ctl c chunks).2).map (readMsg o) =
        calls.map (fun call => (call.2.head, call.2.body)) ∧
      .closing ∉ (feed (handlePackage o) ctl c chunks).2 := by
  intro h
  obtain ⟨backlog, hlen⟩ : ∃ backlog : List UInt8, backlog.length = 2 ^ 32 - 16 :=
    ⟨List.replicate _ 0, List.length_replicate⟩
  have hhead : oneByte.head.toBytes .little = [1, 0, 0, 0, 3, 0, 0, 0, 0, 0, 0, 0, 0, 0, 0, 0] := by
    decide
  have hstream : stream .little [(backlog, oneByte)] =
      [1, 0, 0, 0, 3, 0, 0, 0, 0, 0, 0, 0, 0, 0, 0, 0] := by
    rw [stream, List.flatMap_singleton, sent_eq, if_pos (by rw [hlen]; rfl)]
    exact hhead
  obtain ⟨hread, -⟩ := h .little [(backlog, oneByte)]
    [[1, 0, 0, 0, 3, 0, 0, 0, 0, 0, 0, 0, 0, 0, 0, 0]]
    { readBuffer := fun _ => 0, connStatus := .connOpen } true hstream.symm rfl rfl
    ⟨by decide, trivial⟩
  have hnone : packages (feed (handlePackage .little) true
      { readBuffer := fun _ => 0, connStatus := .connOpen }
      [[1, 0, 0, 0, 3, 0, 0, 0, 0, 0, 0, 0, 0, 0, 0, 0]]).2 = [] := by decide
  rw [hnone] at hread
  cases hread

end SNet.Pipe
