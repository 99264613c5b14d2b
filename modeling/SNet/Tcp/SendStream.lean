import SNet.Tcp.Effects

/-!
# The stream that a connection sends

Every run of the machine is a first-in first-out flow through `send_buffer`
(`exec_sendFlow`): what the critical sections of `msend` appended is what `::send` accepted,
followed by what is in the buffer. Each critical section appends the fragments of one call, or the
first of them, in one block (`mpush_eq`).
-/

namespace SNet.Tcp

variable {c : TcpConnection} {s : Sys} {a : Action} {as : List Action} {buf : Nat → UInt8}

/-! ## One critical section -/

theorem writeData_fst {bs : List UInt8} {frag : Fragment} :
    (writeData bs frag).1 = bs ++ frag.bytes := by
  rcases frag with _ | _ | _ | _ | _ <;> simp [writeData, Fragment.bytes]

/-- `mpush` appends the bytes of the first fragments of its list. -/
theorem mpush_eq (bs : List UInt8) (frags : List Fragment) :
    ∃ n, (mpush bs frags).1 = bs ++ (frags.take n).flatMap Fragment.bytes := by
  induction frags generalizing bs with
  | nil => exact ⟨0, by simp [mpush]⟩
  | cons frag frags ih =>
    simp only [mpush, writeData_fst]
    split
    · obtain ⟨n, hn⟩ := ih (bs ++ frag.bytes)
      exact ⟨n + 1, by rw [hn, List.take_succ_cons, List.flatMap_cons, List.append_assoc]⟩
    · exact ⟨1, by simp⟩

theorem push_flow {t : Nat} {frags : List Fragment} :
    FifoFlow c.sendBuffer (appended (push c t frags).2) (accepted (push c t frags).2)
      (push c t frags).1.sendBuffer := by
  obtain ⟨n, hn⟩ := mpush_eq c.sendBuffer frags
  simp only [push, hn, List.drop_left, appended, accepted, List.flatMap_cons, List.flatMap_nil,
    List.append_nil]
  exact .push

/-- A critical section of `do_send` gives out what `::send` accepts, and nothing else. -/
theorem doSend_flow {r : SendAnswer} {ctl : Bool} (h : r.Possible c) :
    FifoFlow c.sendBuffer (appended (doSend c r ctl).2) (accepted (doSend c r ctl).2)
      (doSend c r ctl).1.sendBuffer := by
  have happ : appended (doSend c r ctl).2 = [] := appended_eq_nil fun e he => by
    obtain h | h := doSend_kind e he <;> simp [h]
  have hmod : ∀ evts, accepted (modEvent c.connSd evts ctl) = [] := fun evts =>
    accepted_eq_nil fun e he => by simp [modEvent_kind e he]
  rw [happ]
  unfold doSend
  split
  · exact .still rfl (hmod _) rfl
  cases r with
  | again => exact .still rfl (hmod _) rfl
  | failed =>
    have hclose : accepted (close c ctl).2 = [] :=
      accepted_eq_nil fun e he => by simp [close_kind e he]
    exact .still rfl hclose close_sameStreams.sendBuffer
  | count rc =>
    dsimp only
    split
    · simpa [accepted] using FifoFlow.take rc
    · -- `::send` took the whole buffer
      obtain ⟨-, hpos, hle⟩ := h
      have hall : c.sendBuffer.length ≤ rc := by omega
      simp [accepted, List.take_of_length_le hall, FifoFlow]

/-! ## Runs -/

/-- Every step of the machine is a flow through `send_buffer`. -/
theorem effect_sendFlow (h : Enabled s a) :
    FifoFlow s.conn.sendBuffer (appended (effect s a).2) (accepted (effect s a).2)
      (effect s a).1.sendBuffer := by
  have still : ∀ r : TcpConnection × List Event,
      (∀ e ∈ r.2, e.kind ≠ .append ∧ e.kind ≠ .send) → r.1.sendBuffer = s.conn.sendBuffer →
      FifoFlow s.conn.sendBuffer (appended r.2) (accepted r.2) r.1.sendBuffer := fun r he hs =>
    .still (appended_eq_nil fun e h => (he e h).1) (accepted_eq_nil fun e h => (he e h).2) hs
  have kernel : ∀ r : TcpConnection × List Event, (∀ e ∈ r.2, e.kind = .kernel) →
      SameStreams s.conn r.1 → FifoFlow s.conn.sendBuffer (appended r.2) (accepted r.2) r.1.sendBuffer :=
    fun r he hs => still r (fun e h => by simp [he e h]) hs.sendBuffer
  have opening : ∀ r : TcpConnection × List Event,
      (∀ e ∈ r.2, e.kind = .opening ∨ e.kind = .kernel) → SameStreams s.conn r.1 →
      FifoFlow s.conn.sendBuffer (appended r.2) (accepted r.2) r.1.sendBuffer :=
    fun r he hs => still r (fun e h => by obtain h | h := he e h <;> simp [h]) hs.sendBuffer
  cases a with
  | accept fd ctl => exact opening _ accept_kind ⟨rfl, rfl, rfl⟩
  | connect b r => exact opening _ doConnect_kind connect_sameStreams
  | enableReconnect | msend | epollWait | processEvent => exact .refl
  | timer r => exact opening _ reconnectTimer_kind reconnectTimer_sameStreams
  | push t frags => exact push_flow
  | send t r ctl => exact doSend_flow h.2
  | close ctl => exact kernel _ close_kind close_sameStreams
  | onReady evts =>
    exact still _ (fun e he => by simp [onReady_kind e he]) onReady_sameStreams.sendBuffer
  | read evts hp r ctl =>
    simp only [effect]
    split
    · exact still (_, _) (fun e he => by obtain h | h := doRead_kind e he <;> simp [h])
        doRead_sendBuffer
    · exact .refl
  | write evts r ctl =>
    simp only [effect]
    split
    · exact doSend_flow h.2
    · exact .refl
  | error evts ctl =>
    simp only [effect]
    split
    · exact kernel _ close_kind close_sameStreams
    · exact .refl
  | finish ctl =>
    exact still _ (fun e he => by obtain h | h | h := doClose_kind e he <;> simp [h])
      doClose_sameStreams.sendBuffer

theorem exec_sendFlow (h : machine.Runs (Sys.start buf) as) :
    FifoFlow [] (appended (machine.exec (Sys.start buf) as).trace)
      (accepted (machine.exec (Sys.start buf) as).trace)
      (machine.exec (Sys.start buf) as).conn.sendBuffer := by
  refine h.invariant (I := fun s => FifoFlow [] (appended s.trace) (accepted s.trace)
    s.conn.sendBuffer) ?_ .refl
  intro s a ha ih
  simpa only [machine_next, next_trace, next_conn, appended_append, accepted_append] using
    ih.trans (effect_sendFlow ha)

/-- What a critical section of `msend` appends is made of the first fragments of its call. -/
theorem exec_append_fragments (h : machine.Runs (Sys.start buf) as) {t : Nat}
    {frags : List Fragment} {bytes : List UInt8}
    (he : .append t frags bytes ∈ (machine.exec (Sys.start buf) as).trace) :
    ∃ n, bytes = (frags.take n).flatMap Fragment.bytes := by
  revert t frags bytes
  refine h.invariant (I := fun s => ∀ {t frags bytes}, .append t frags bytes ∈ s.trace →
    ∃ n, bytes = (frags.take n).flatMap Fragment.bytes) ?_ (fun he => (List.not_mem_nil he).elim)
  intro s a _ ih t frags bytes he
  rw [machine_next, next_trace, List.mem_append] at he
  obtain he | he := he
  · exact ih he
  · obtain ⟨t', frags', rfl⟩ := kind_append he rfl
    simp only [effect, push, List.mem_singleton, Event.append.injEq] at he
    obtain ⟨-, rfl, rfl⟩ := he
    obtain ⟨n, hn⟩ := mpush_eq s.conn.sendBuffer frags
    exact ⟨n, by rw [hn, List.drop_left]⟩

/-- **Fidelity of the sent stream.** In every run, whatever the order of the critical sections and
the answers of `::send`, the bytes accepted so far followed by `send_buffer` are the blocks that the
`msend` calls appended, in the order in which they held the lock; each block is made of the first
fragments of one call, in their order. -/
theorem sendStream_fidelity (h : machine.Runs (Sys.start buf) as) :
    accepted (machine.exec (Sys.start buf) as).trace ++
        (machine.exec (Sys.start buf) as).conn.sendBuffer =
      appended (machine.exec (Sys.start buf) as).trace ∧
    ∀ t frags bytes, .append t frags bytes ∈ (machine.exec (Sys.start buf) as).trace →
      ∃ n, bytes = (frags.take n).flatMap Fragment.bytes :=
  ⟨(exec_sendFlow h).nil_left.symm, fun _ _ _ he => exec_append_fragments h he⟩

/-- Two threads, a short write and a full socket buffer. -/
theorem sendStream_fidelity_twoThreads :
    let s := machine.exec (Sys.start fun _ => 0) (accepting 5 ++
      [.msend 1 [.string [1, 2, 3]], .msend 2 [.pod [4], .string [5]], .push 1 [.string [1, 2, 3]],
        .send 1 (.count 2) true, .push 2 [.pod [4], .string [5]], .send 1 .again true])
    accepted s.trace ++ s.conn.sendBuffer = appended s.trace :=
  (sendStream_fidelity (by decide)).1

end SNet.Tcp
