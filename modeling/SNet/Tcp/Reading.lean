import SNet.Library.Loop
import SNet.Tcp.ReceiveStream

/-!
# `do_read` and its recursive calls

What a socket has for one `do_read`: the bytes in the pieces in which `::recv` returns them, and
what it answers behind the last of them. A call of `do_read` is a round of a `Loop`, its recursive
call the next round.

The recursion ends exactly if no round finds `read_buffer` full with a `handle_package` that asks
for more (`ends_iff_not_stuck`): such a round receives nothing and changes nothing.
-/

namespace SNet.Tcp

open Memory

/-- What `::recv` answers when it has returned all bytes. -/
inductive RecvEnd
  | wouldBlock
  | eof
  | failed
  deriving DecidableEq, Repr

def RecvEnd.answer : RecvEnd → RecvAnswer
  | wouldBlock => .again
  | eof => .data []
  | failed => .failed

/-- The bytes waiting in a socket, in the pieces in which `::recv` returns them if there is room,
and what comes behind them. -/
structure Inbox where
  pieces : List (List UInt8)
  last : RecvEnd
  piece_ne : ∀ p ∈ pieces, p ≠ []

/-- The bytes of the next `::recv` with room for `room` bytes, and the rest. -/
def Inbox.take (inbox : Inbox) (room : Nat) : Option (List UInt8 × Inbox) :=
  match inbox with
  | ⟨[], _, _⟩ => none
  | ⟨p :: ps, last, hne⟩ =>
    some (p.take room,
      if hp : p.drop room = [] then ⟨ps, last, fun q hq => hne q (.tail _ hq)⟩
      else ⟨p.drop room :: ps, last, List.forall_mem_cons.2 ⟨hp, fun q hq => hne q (.tail _ hq)⟩⟩)

/-- The number of bytes. -/
def Inbox.size (inbox : Inbox) : Nat := inbox.pieces.flatten.length

/-- A `do_read` between two calls. -/
structure Reading where
  conn : TcpConnection
  inbox : Inbox
  trace : List Event := []

/-- `::recv` with `bufSize > 0`. -/
def Reading.recv (s : Reading) : RecvAnswer × Inbox :=
  if 0 < s.conn.connSd then
    match s.inbox.take (kReadBufferSize - s.conn.readBufferPos) with
    | none => (s.inbox.last.answer, s.inbox)
    | some (bytes, inbox) => (.data bytes, inbox)
  else (.failed, s.inbox)

/-- One call of `do_read`, up to its recursive call. With a full buffer `::recv` is not called. -/
def readRound (hp : PackageHandler) (ctl : Bool) : Loop Reading Reading := fun s =>
  let r := if s.conn.readBufferPos < kReadBufferSize then s.recv else (.again, s.inbox)
  let d := doRead hp s.conn r.1 ctl
  let s' : Reading := ⟨d.1, r.2, s.trace ++ d.2.1⟩
  if d.2.2 then .inl s' else .inr s'

variable {hp : PackageHandler} {ctl : Bool} {s t u : Reading} {inbox inbox' : Inbox}
  {room : Nat} {bytes : List UInt8}

/-! ## What `::recv` stores -/

/-- The bytes that a call stores before `process_data`, and what is left in the socket; `none` where
the answer of `::recv` ends the call. -/
def Reading.stored (s : Reading) : Option (List UInt8 × Inbox) :=
  if s.conn.readBufferPos < kReadBufferSize then
    s.inbox.take (kReadBufferSize - s.conn.readBufferPos)
  else some ([], s.inbox)

/-- The connection has a descriptor, and no more bytes than `read_buffer` has room for. -/
structure Reading.Valid (s : Reading) : Prop where
  connSd : 0 < s.conn.connSd
  le_size : s.conn.readBufferPos ≤ kReadBufferSize

theorem Inbox.take_eq_none (h : inbox.take room = none) : inbox.pieces = [] := by
  obtain ⟨pieces, last, hne⟩ := inbox
  cases pieces with
  | nil => rfl
  | cons p ps => cases h

theorem Inbox.take_eq_some (h : inbox.take room = some (bytes, inbox')) (hroom : 0 < room) :
    bytes ≠ [] ∧ bytes.length ≤ room ∧ inbox'.last = inbox.last ∧
      inbox.pieces.flatten = bytes ++ inbox'.pieces.flatten := by
  obtain ⟨pieces, last, hne⟩ := inbox
  cases pieces with
  | nil => cases h
  | cons p ps =>
    have hp : p ≠ [] := hne p List.mem_cons_self
    simp only [Inbox.take, Option.some.injEq, Prod.mk.injEq] at h
    obtain ⟨rfl, rfl⟩ := h
    refine ⟨?_, List.length_take_le _ _, by split <;> rfl, ?_⟩
    · rw [Ne, List.take_eq_nil_iff]
      exact fun h => h.elim (Nat.ne_of_gt hroom) hp
    · split
      · next hdrop =>
        rw [List.take_of_length_le (List.drop_eq_nil_iff.1 hdrop)]
        rfl
      · rw [List.flatten_cons, List.flatten_cons, ← List.append_assoc, List.take_append_drop]

theorem Reading.pieces_eq_nil (h : s.stored = none) : s.inbox.pieces = [] := by
  unfold Reading.stored at h
  split at h
  · exact Inbox.take_eq_none h
  · cases h

theorem receive_nil {c : TcpConnection} : c.receive [] = c := by
  have hwrite : write c.readBuffer c.readBufferPos [] = c.readBuffer := by
    funext i
    simp [write]
  rw [TcpConnection.receive, hwrite]

theorem doRead_full {c : TcpConnection} {r : RecvAnswer} (h : ¬ c.readBufferPos < kReadBufferSize) :
    doRead hp c r ctl = processData hp c 0 ctl := if_neg (by omega)

/-- A call that gets to `process_data`. -/
theorem readRound_of_some (hp : PackageHandler) (ctl : Bool) (hv : s.Valid)
    (h : s.stored = some (bytes, inbox)) : ∃ tr, readRound hp ctl s =
      if (processData hp (s.conn.receive bytes) bytes.length ctl).2.2 then
        .inl ⟨(processData hp (s.conn.receive bytes) bytes.length ctl).1, inbox, tr⟩
      else .inr ⟨(processData hp (s.conn.receive bytes) bytes.length ctl).1, inbox, tr⟩ := by
  unfold Reading.stored at h
  split at h
  · next hroom =>
    obtain ⟨hne, -⟩ := Inbox.take_eq_some h (by omega)
    have hread : doRead hp s.conn (.data bytes) ctl =
        ((processData hp (s.conn.receive bytes) bytes.length ctl).1,
          .recv s.conn.connSd bytes ::
            (processData hp (s.conn.receive bytes) bytes.length ctl).2.1,
          (processData hp (s.conn.receive bytes) bytes.length ctl).2.2) := by
      cases bytes with
      | nil => exact absurd rfl hne
      | cons b bs =>
        unfold doRead
        rw [if_pos (by omega)]
        rfl
    simp only [readRound, if_pos hroom, Reading.recv, if_pos hv.connSd, h, hread]
    exact ⟨_, rfl⟩
  · next hfull =>
    cases h
    simp only [readRound, if_neg hfull, doRead_full hfull, receive_nil, List.length_nil]
    exact ⟨_, rfl⟩

/-- A call that `::recv` ends. -/
theorem readRound_of_none (hp : PackageHandler) (ctl : Bool) (hv : s.Valid)
    (h : s.stored = none) : ∃ tr, readRound hp ctl s =
      .inr ⟨if s.inbox.last = .wouldBlock then s.conn else (close s.conn ctl).1, s.inbox, tr⟩ := by
  unfold Reading.stored at h
  split at h
  · next hroom =>
    simp only [readRound, if_pos hroom, Reading.recv, if_pos hv.connSd, h, doRead,
      if_pos (by omega : 0 < kReadBufferSize - s.conn.readBufferPos)]
    cases s.inbox.last <;> exact ⟨_, rfl⟩
  · cases h

/-- What is stored fits, and there is something if there is room. -/
theorem Reading.stored_spec (hv : s.Valid) (h : s.stored = some (bytes, inbox)) :
    s.conn.readBufferPos + bytes.length ≤ kReadBufferSize ∧ inbox.last = s.inbox.last ∧
      s.inbox.size = bytes.length + inbox.size ∧
      (s.conn.readBufferPos < kReadBufferSize → bytes ≠ []) := by
  have := hv.le_size
  unfold Reading.stored at h
  split at h
  · next hroom =>
    obtain ⟨hne, hle, hlast, hflat⟩ := Inbox.take_eq_some h (by omega)
    refine ⟨by omega, hlast, ?_, fun _ => hne⟩
    rw [Inbox.size, hflat, List.length_append, Inbox.size]
  · next hfull =>
    cases h
    exact ⟨hv.le_size, rfl, (Nat.zero_add _).symm, fun h => absurd h hfull⟩

/-! ## One round -/

/-- `process_data` leaves no more bytes than it found. -/
theorem processData_pos_le {c : TcpConnection} {n : Nat} :
    (processData hp c n ctl).1.readBufferPos ≤ c.readBufferPos + n := by
  cases h : (processLoop hp c.readBuffer (c.readBufferPos + n) (c.readBufferPos + n) 0).2 with
  | none =>
    rw [processData_of_none h, close_sameStreams.readBufferPos]
  | some k =>
    rw [processData_of_some h]
    exact Nat.sub_le _ _

/-- Where `do_read` calls itself, the connection has the same status, and unread bytes. -/
theorem processData_of_more {c : TcpConnection} {n : Nat}
    (h : (processData hp c n ctl).2.2 = true) :
    (processData hp c n ctl).1.connStatus = c.connStatus ∧
      0 < (processData hp c n ctl).1.readBufferPos := by
  cases hloop : (processLoop hp c.readBuffer (c.readBufferPos + n) (c.readBufferPos + n) 0).2 with
  | none => rw [processData_of_none hloop] at h; cases h
  | some k =>
    rw [processData_of_some hloop] at h ⊢
    exact ⟨rfl, of_decide_eq_true h⟩

/-- Where it does not, nothing is unread, or a length was rejected. -/
theorem processData_of_no_more {c : TcpConnection} {n : Nat}
    (h : (processData hp c n ctl).2.2 = false) :
    (processData hp c n ctl).1.readBufferPos = 0 ∨
      (processData hp c n ctl).1.connStatus = (close c ctl).1.connStatus := by
  cases hloop : (processLoop hp c.readBuffer (c.readBufferPos + n) (c.readBufferPos + n) 0).2 with
  | none =>
    right
    rw [processData_of_none hloop, close_status, close_status]
  | some k =>
    left
    rw [processData_of_some hloop] at h ⊢
    exact Nat.eq_zero_of_not_pos (of_decide_eq_false h)

/-- What a round that leads to another one does. -/
theorem readRound_inl (hv : s.Valid) (h : readRound hp ctl s = .inl t) :
    ∃ bytes, s.stored = some (bytes, t.inbox) ∧
      t.conn = (processData hp (s.conn.receive bytes) bytes.length ctl).1 ∧
      (processData hp (s.conn.receive bytes) bytes.length ctl).2.2 = true := by
  cases hs : s.stored with
  | none =>
    obtain ⟨tr, hr⟩ := readRound_of_none hp ctl hv hs
    rw [hr] at h
    cases h
  | some r =>
    obtain ⟨bytes, inbox⟩ := r
    obtain ⟨tr, hr⟩ := readRound_of_some hp ctl hv hs
    rw [hr] at h
    split at h
    · next hmore =>
      cases h
      exact ⟨bytes, rfl, rfl, hmore⟩
    · cases h

theorem Reading.Valid.next (hv : s.Valid) (h : readRound hp ctl s = .inl t) : t.Valid := by
  obtain ⟨bytes, hs, hconn, -⟩ := readRound_inl hv h
  obtain ⟨hfits, -⟩ := s.stored_spec hv hs
  refine ⟨?_, ?_⟩
  · rw [hconn, processData_sameSetup.connSd]
    exact hv.connSd
  · rw [hconn]
    exact Nat.le_trans processData_pos_le hfits

theorem Reading.Valid.reached (hv : s.Valid) (h : (readRound hp ctl).Reached s t) : t.Valid :=
  h.invariant (I := Reading.Valid) (fun _ _ hstep hv => hv.next hstep) hv

/-- The status stays while `do_read` goes on. -/
theorem connStatus_reached (hv : s.Valid) (h : (readRound hp ctl).Reached s t) :
    t.conn.connStatus = s.conn.connStatus := by
  refine (h.invariant (I := fun t => t.Valid ∧ t.conn.connStatus = s.conn.connStatus)
    (fun t u hstep ih => ⟨ih.1.next hstep, ?_⟩) ⟨hv, rfl⟩).2
  obtain ⟨bytes, -, hconn, hmore⟩ := readRound_inl ih.1 hstep
  rw [hconn, (processData_of_more hmore).1]
  exact ih.2

/-! ## Lengths that are rejected -/

/-- A length that `process_data` finds, at `readPos` or behind the packages from there on, does not
fit `read_buffer`. -/
inductive Overlong (hp : PackageHandler) (buf : Nat → UInt8) (pos : Nat) : Nat → Prop
  | found {readPos : Nat} : readPos < pos → kReadBufferSize < hp buf readPos pos →
      Overlong hp buf pos readPos
  | package {readPos : Nat} : readPos < pos → 0 < hp buf readPos pos →
      hp buf readPos pos ≤ (pos : Int) - readPos →
      Overlong hp buf pos (readPos + (hp buf readPos pos).toNat) → Overlong hp buf pos readPos

theorem Overlong.processLoop {buf : Nat → UInt8} {pos readPos fuel : Nat}
    (h : Overlong hp buf pos readPos) (hpos : pos ≤ kReadBufferSize) (hfuel : pos - readPos ≤ fuel) :
    (processLoop hp buf pos fuel readPos).2 = none := by
  induction h generalizing fuel with
  | found hlt hlimit => rw [processLoop_reject (by omega) hlt (by omega) hlimit]
  | package hlt hpkg hfits _ ih =>
    rw [processLoop_deliver (by omega) hpkg hfits]
    exact ih (by omega)

/-- A call of `do_read` that finds such a length. -/
def Rejects (hp : PackageHandler) (s : Reading) : Prop :=
  ∃ bytes inbox, s.stored = some (bytes, inbox) ∧
    Overlong hp (s.conn.receive bytes).readBuffer (s.conn.readBufferPos + bytes.length) 0

/-- It closes the connection and returns. -/
theorem Rejects.closes (ctl : Bool) (hv : s.Valid) (hopen : s.conn.connStatus = .connOpen)
    (h : Rejects hp s) :
    ∃ r, readRound hp ctl s = .inr r ∧ r.conn.connStatus = .connClosing := by
  obtain ⟨bytes, inbox, hstored, hlong⟩ := h
  obtain ⟨hfits, -⟩ := s.stored_spec hv hstored
  have hloop := hlong.processLoop hfits (Nat.le_refl _)
  obtain ⟨tr, hr⟩ := readRound_of_some hp ctl hv hstored
  rw [processData_of_none hloop, if_neg Bool.false_ne_true] at hr
  refine ⟨_, hr, ?_⟩
  dsimp only
  rw [close_status]
  exact if_pos (by rw [TcpConnection.receive, hopen]; decide)

/-! ## The end of the recursion -/

/-- `read_buffer` is full, and `handle_package` asks for more. -/
def Stuck (hp : PackageHandler) (c : TcpConnection) : Prop :=
  c.readBufferPos = kReadBufferSize ∧ hp c.readBuffer 0 kReadBufferSize ≤ 0

theorem move_zero {buf : Nat → UInt8} {n : Nat} : move buf 0 n = buf := by
  funext i
  simp [move]

/-- A call that finds no package to hand on leaves everything where it is. -/
theorem processData_of_zero {c : TcpConnection} {n : Nat}
    (h : processLoop hp c.readBuffer (c.readBufferPos + n) (c.readBufferPos + n) 0 =
      ([], some 0)) :
    processData hp c n ctl = ({ c with readBufferPos := c.readBufferPos + n }, [],
      decide (0 < c.readBufferPos + n)) := by
  rw [processData_of_some (congrArg Prod.snd h), h, Nat.sub_zero, move_zero, ite_self]
  rfl

/-- A stuck round leads to itself. -/
theorem Stuck.cycle (h : Stuck hp s.conn) : readRound hp ctl s = .inl s := by
  obtain ⟨hpos, hpkg⟩ := h
  have hfull : ¬ s.conn.readBufferPos < kReadBufferSize := by omega
  have hsize : 0 < kReadBufferSize := by decide
  have hloop : processLoop hp s.conn.readBuffer (s.conn.readBufferPos + 0)
      (s.conn.readBufferPos + 0) 0 = ([], some 0) := by
    rw [Nat.add_zero, hpos]
    exact processLoop_stop fun _ => ⟨by omega, .inl hpkg⟩
  have hdata : processData hp s.conn 0 ctl = (s.conn, [], true) := by
    rw [processData_of_zero hloop, Nat.add_zero, decide_eq_true (by omega)]
  simp only [readRound, if_neg hfull, doRead_full hfull, hdata, List.append_nil, if_true]

/-- The bytes in the socket count twice, and a full buffer once. -/
def Reading.measure (s : Reading) : Nat :=
  2 * s.inbox.size + if s.conn.readBufferPos = kReadBufferSize then 1 else 0

/-- A round that finds the buffer full and is not stuck makes room. -/
theorem processData_lt_of_not_stuck {c : TcpConnection} (hs : ¬ Stuck hp c)
    (hpos : c.readBufferPos = kReadBufferSize) (hmore : (processData hp c 0 ctl).2.2 = true) :
    (processData hp c 0 ctl).1.readBufferPos < kReadBufferSize := by
  have hsize : 0 < kReadBufferSize := by decide
  have hpkg : 0 < hp c.readBuffer 0 kReadBufferSize := Int.not_le.1 fun h => hs ⟨hpos, h⟩
  have hflow := (processData_flow hp c 0 ctl).resolve_right fun h => by simp [hmore] at h
  have hlen := congrArg List.length hflow
  rw [TcpConnection.offered, length_slice, List.length_append, TcpConnection.unread, length_slice,
    packages_processData, Nat.add_zero, hpos] at hlen
  by_cases hlimit : hp c.readBuffer 0 kReadBufferSize ≤ kReadBufferSize
  · -- the first package is handed on
    rw [processLoop_deliver hsize hpkg (by omega), List.flatten_cons, List.length_append,
      length_slice] at hlen
    omega
  · -- the length is rejected, and `do_read` does not go on
    have hnone : processLoop hp c.readBuffer kReadBufferSize kReadBufferSize 0 = ([], none) :=
      processLoop_reject hsize hsize (by omega) (by omega)
    rw [processData_of_none (by rw [Nat.add_zero, hpos, hnone])] at hmore
    cases hmore

theorem measure_next (hv : s.Valid) (hs : ¬ Stuck hp s.conn) (h : readRound hp ctl s = .inl t) :
    t.measure < s.measure := by
  obtain ⟨bytes, hstored, hconn, hmore⟩ := readRound_inl hv h
  obtain ⟨-, -, hsize, hne⟩ := s.stored_spec hv hstored
  by_cases hpos : s.conn.readBufferPos = kReadBufferSize
  · rw [Reading.stored, if_neg (by omega)] at hstored
    have hbytes : [] = bytes := congrArg Prod.fst (Option.some.inj hstored)
    subst hbytes
    rw [receive_nil] at hconn hmore
    have hlt := processData_lt_of_not_stuck hs hpos hmore
    rw [List.length_nil] at hconn hsize
    rw [Reading.measure, Reading.measure, if_pos hpos, if_neg (by rw [hconn]; omega)]
    omega
  · have := hv.le_size
    have hlen := List.length_pos_iff.2 (hne (by omega))
    rw [Reading.measure, Reading.measure, if_neg hpos]
    split <;> omega

/-- **The recursion of `do_read` ends** exactly if it never finds the buffer full with a
`handle_package` that asks for more. -/
theorem ends_iff_not_stuck (hv : s.Valid) : (∃ r, (readRound hp ctl).Ends s r) ↔
    ∀ t, (readRound hp ctl).Reached s t → ¬ Stuck hp t.conn := by
  constructor
  · rintro ⟨r, hr⟩ t ht hstuck
    exact ht.not_ends_of_cycle hstuck.cycle hr
  · intro h
    refine Loop.ends_of_measure Reading.measure fun t u ht hstep => ?_
    exact measure_next (hv.reached ht) (h t ht) hstep

end SNet.Tcp
