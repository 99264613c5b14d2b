import SNet.Pipe.Codec
import SNet.Tcp.Reading

/-!
# A pipe that is told of a message it cannot hold

The `handle_package` of a pipe returns 0 for an incomplete message of any announced length, so a head
that announces more than `read_buffer` holds is never rejected: `do_read` waits for the rest of the
message until the buffer is full, and then calls itself for ever. `reading_ends_iff` gives the exact
condition for any `handle_package`, and for pipes.
-/

namespace SNet.Pipe

open Tcp Memory

variable {o : ByteOrder} {ctl : Bool} {s t r : Reading} {bytes : List UInt8} {inbox : Inbox}
  {c : TcpConnection}

/-- The buffer begins with a head whose message can never fit. -/
def Oversized (o : ByteOrder) (c : TcpConnection) : Prop :=
  sizeofHead ≤ c.readBufferPos ∧
    (kReadBufferSize : Int) < (framing o).announce (slice c.readBuffer 0 sizeofHead)

/-- `do_read` returns, and not with an oversized message at the front of an open connection. -/
def ReturnsOrCloses (o : ByteOrder) (ctl : Bool) (s : Reading) : Prop :=
  ∃ r, (readRound (handlePackage o) ctl).Ends s r ∧
    ¬ (Oversized o r.conn ∧ r.conn.connStatus = .connOpen)

/-- All that the socket has fits the buffer, and the stream ends behind it. -/
def EndsInTime (s : Reading) : Prop :=
  s.conn.readBufferPos + s.inbox.size < kReadBufferSize ∧ s.inbox.last ≠ .wouldBlock

/-- A pipe gets stuck on an oversized message only. -/
theorem Oversized.of_stuck (h : Stuck (handlePackage o) c) : Oversized o c := by
  obtain ⟨hpos, hpkg⟩ := h
  have hsize : sizeofHead ≤ kReadBufferSize := by decide
  have hann : 0 < (framing o).announce (slice c.readBuffer 0 sizeofHead) := by
    simp only [framing, sizeofHead]
    omega
  rw [handlePackage_eq (Nat.le_refl _)] at hpkg
  refine ⟨by omega, ?_⟩
  split at hpkg <;> omega

/-- Nothing is consumed of an oversized message, and `do_read` goes on. -/
theorem Oversized.processData (ctl : Bool) (hov : Oversized o c)
    (hfits : c.readBufferPos + bytes.length ≤ kReadBufferSize) :
    (processData (handlePackage o) (c.receive bytes) bytes.length ctl).2.2 = true ∧
      Oversized o (processData (handlePackage o) (c.receive bytes) bytes.length ctl).1 ∧
      (processData (handlePackage o) (c.receive bytes) bytes.length ctl).1.readBufferPos =
        c.readBufferPos + bytes.length := by
  obtain ⟨hhead, hann⟩ := hov
  have hslice : slice (c.receive bytes).readBuffer 0 sizeofHead = slice c.readBuffer 0 sizeofHead :=
    slice_write_below (by omega)
  have hzero : handlePackage o (c.receive bytes).readBuffer 0 (c.readBufferPos + bytes.length) = 0 := by
    rw [handlePackage_eq hfits, hslice, if_pos (by omega)]
  have hloop : processLoop (handlePackage o) (c.receive bytes).readBuffer
      (c.readBufferPos + bytes.length) (c.readBufferPos + bytes.length) 0 = ([], some 0) :=
    processLoop_stop fun _ => by rw [hzero]; exact ⟨by omega, .inl (Int.le_refl 0)⟩
  have hsize : 0 < sizeofHead := by decide
  rw [processData_of_zero hloop]
  refine ⟨decide_eq_true ?_, ⟨?_, ?_⟩, rfl⟩
  · rw [TcpConnection.receive_readBufferPos]
    omega
  · dsimp only
    rw [TcpConnection.receive_readBufferPos]
    omega
  · rw [hslice]
    exact hann

/-- Behind an oversized head `do_read` only fills the buffer. -/
theorem Oversized.readRound (ctl : Bool) (hv : s.Valid) (hov : Oversized o s.conn)
    (h : s.stored = some (bytes, inbox)) : ∃ t, readRound (handlePackage o) ctl s = .inl t ∧
      Oversized o t.conn ∧ t.inbox.last = s.inbox.last ∧
      t.conn.readBufferPos + t.inbox.size = s.conn.readBufferPos + s.inbox.size := by
  obtain ⟨hfits, hlast, hsize, -⟩ := s.stored_spec hv h
  obtain ⟨hmore, hov', hpos⟩ := hov.processData ctl hfits
  obtain ⟨tr, hr⟩ := readRound_of_some (handlePackage o) ctl hv h
  rw [if_pos hmore] at hr
  refine ⟨_, hr, hov', hlast, ?_⟩
  dsimp only
  rw [hpos]
  omega

/-- A `do_read` behind an oversized head returns only if it meets the end of the stream in time. -/
theorem Oversized.endsInTime (hv : s.Valid) (hov : Oversized o s.conn)
    (hopen : s.conn.connStatus = .connOpen)
    (hends : (Tcp.readRound (handlePackage o) ctl).Ends s r)
    (hr : ¬ (Oversized o r.conn ∧ r.conn.connStatus = .connOpen)) : EndsInTime s := by
  obtain ⟨fuel, hrun⟩ := hends
  induction fuel generalizing s with
  | zero => cases hrun
  | succ fuel ih =>
    cases hstored : s.stored with
    | none =>
      obtain ⟨tr, hround⟩ := readRound_of_none (handlePackage o) ctl hv hstored
      rw [Loop.run, hround] at hrun
      cases hrun
      refine ⟨?_, fun hlast => hr ?_⟩
      · have hroom : s.conn.readBufferPos < kReadBufferSize := by
          by_contra hfull
          rw [Reading.stored, if_neg hfull] at hstored
          cases hstored
        have hempty : s.inbox.size = 0 := by
          rw [Inbox.size, Reading.pieces_eq_nil hstored]
          rfl
        omega
      · rw [hlast, if_pos rfl]
        exact ⟨hov, hopen⟩
    | some q =>
      obtain ⟨bytes, inbox⟩ := q
      obtain ⟨t, hround, hov', hlast, hsum⟩ := hov.readRound ctl hv hstored
      rw [Loop.run, hround] at hrun
      have hstatus := connStatus_reached hv (.next .refl hround)
      obtain ⟨hsize, hne⟩ := ih (hv.next hround) hov' (hstatus.trans hopen) hrun
      exact ⟨by omega, hlast ▸ hne⟩

/-- What a call that returns leaves behind. -/
theorem not_oversized_of_inr (hv : s.Valid) (hopen : s.conn.connStatus = .connOpen)
    (hin : Oversized o s.conn → EndsInTime s)
    (h : Tcp.readRound (handlePackage o) ctl s = .inr r) :
    ¬ (Oversized o r.conn ∧ r.conn.connStatus = .connOpen) := by
  rintro ⟨hov, hstatus⟩
  have hclosed : (close s.conn ctl).1.connStatus ≠ .connOpen := by
    rw [close_status, hopen]
    decide
  cases hstored : s.stored with
  | none =>
    obtain ⟨tr, hround⟩ := readRound_of_none (handlePackage o) ctl hv hstored
    rw [hround] at h
    cases h
    by_cases hlast : s.inbox.last = .wouldBlock
    · rw [if_pos hlast] at hov
      exact (hin hov).2 hlast
    · rw [if_neg hlast] at hstatus
      exact hclosed hstatus
  | some q =>
    obtain ⟨bytes, inbox⟩ := q
    obtain ⟨tr, hround⟩ := readRound_of_some (handlePackage o) ctl hv hstored
    rw [hround] at h
    split at h
    · cases h
    · next hmore =>
      cases h
      obtain hpos | hclose := processData_of_no_more (by simpa using hmore)
      · have := hov.1
        rw [hpos] at this
        exact absurd this (by decide)
      · rw [close_status] at hclose hclosed
        exact hclosed (hclose.symm.trans hstatus)

/-- **Reading ends.** For any `handle_package`: `do_read` returns if and only if none of its calls
finds the buffer full with a `handle_package` that asks for more, and a call that finds a length over
the size of the buffer closes the connection. For a pipe: `do_read` returns, and not with an oversized
message at the front of an open connection, if and only if all its calls that find such a message meet
the end of the stream before the buffer is full. -/
theorem reading_ends_iff (hv : s.Valid) (hopen : s.conn.connStatus = .connOpen) :
    (∀ hp : PackageHandler,
      ((∃ r, (readRound hp ctl).Ends s r) ↔
        ∀ t, (readRound hp ctl).Reached s t → ¬ Stuck hp t.conn) ∧
      ∀ t, (readRound hp ctl).Reached s t → Rejects hp t →
        ∃ r, readRound hp ctl t = .inr r ∧ r.conn.connStatus = .connClosing) ∧
    (ReturnsOrCloses o ctl s ↔
      ∀ t, (readRound (handlePackage o) ctl).Reached s t → Oversized o t.conn → EndsInTime t) := by
  refine ⟨fun hp => ⟨ends_iff_not_stuck hv, fun t ht hrej => ?_⟩, ?_, fun h => ?_⟩
  · exact hrej.closes ctl (hv.reached ht) ((connStatus_reached hv ht).trans hopen)
  · rintro ⟨r, hends, hr⟩ t ht hov
    exact hov.endsInTime (hv.reached ht) ((connStatus_reached hv ht).trans hopen)
      (ht.ends_iff.1 hends) hr
  · have hstuck : ∀ t, (readRound (handlePackage o) ctl).Reached s t →
        ¬ Stuck (handlePackage o) t.conn := by
      intro t ht hstuck
      have := (h t ht (.of_stuck hstuck)).1
      have := hstuck.1
      omega
    obtain ⟨r, hends⟩ := (ends_iff_not_stuck hv).2 hstuck
    obtain ⟨t, ht, hround⟩ := Loop.ends_iff.1 hends
    exact ⟨r, hends, not_oversized_of_inr (hv.reached ht) ((connStatus_reached hv ht).trans hopen)
      (h t ht) hround⟩

/-- An open pipe with an empty buffer. -/
def emptyPipe (pieces : List (List UInt8)) (hne : ∀ p ∈ pieces, p ≠ []) : Reading where
  conn := { readBuffer := fun _ => 0, connStatus := .connOpen, connSd := 5 }
  inbox := ⟨pieces, .wouldBlock, hne⟩

theorem reading_ends_iff_head :
    (∀ hp : PackageHandler,
      ((∃ r, (readRound hp true).Ends (emptyPipe [[1, 0, 0, 0]] (by decide)) r) ↔
        ∀ t, (readRound hp true).Reached (emptyPipe [[1, 0, 0, 0]] (by decide)) t →
          ¬ Stuck hp t.conn) ∧
      ∀ t, (readRound hp true).Reached (emptyPipe [[1, 0, 0, 0]] (by decide)) t → Rejects hp t →
        ∃ r, readRound hp true t = .inr r ∧ r.conn.connStatus = .connClosing) ∧
    (ReturnsOrCloses .little true (emptyPipe [[1, 0, 0, 0]] (by decide)) ↔
      ∀ t, (readRound (handlePackage .little) true).Reached
        (emptyPipe [[1, 0, 0, 0]] (by decide)) t → Oversized .little t.conn → EndsInTime t) :=
  reading_ends_iff ⟨by decide, by decide⟩ rfl

/-- A buffer that begins with a head of `length = 2 ^ 23`, and 16 bytes of the body less than the
buffer has room for: the peer may send them. -/
theorem oversized_reads_forever : ¬ ∀ (o : ByteOrder) (ctl : Bool) (s : Reading), s.Valid →
    s.conn.connStatus = .connOpen → ReturnsOrCloses o ctl s := by
  intro h
  obtain ⟨body, hbody⟩ : ∃ body : List UInt8, body.length = kReadBufferSize - sizeofHead :=
    ⟨.replicate _ 0, List.length_replicate⟩
  let head : Nat → UInt8 := fun i => if i = 2 then 128 else 0
  let s : Reading :=
    { conn := { readBuffer := head, readBufferPos := sizeofHead, connStatus := .connOpen,
                connSd := 5 }
      inbox := ⟨[body], .wouldBlock, by
        rintro p hp rfl
        rw [← List.mem_singleton.1 hp] at hbody
        cases hbody⟩ }
  have hv : s.Valid := ⟨(by decide : (0 : Int) < 5), (by decide : sizeofHead ≤ kReadBufferSize)⟩
  have hann : (kReadBufferSize : Int) < (framing .little).announce (slice head 0 sizeofHead) := by
    decide
  have hov : Oversized .little s.conn := ⟨Nat.le_refl _, hann⟩
  obtain ⟨r, hends, hr⟩ := h .little true s hv rfl
  have hsum := (hov.endsInTime hv rfl hends hr).1
  have hsize : s.inbox.size = kReadBufferSize - sizeofHead := by
    rw [← hbody]
    exact congrArg List.length (List.append_nil body)
  have hpos : s.conn.readBufferPos = sizeofHead := rfl
  have hle : sizeofHead ≤ kReadBufferSize := by decide
  omega

end SNet.Pipe
