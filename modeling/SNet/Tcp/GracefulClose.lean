import SNet.Library.Trace
import SNet.Tcp.SendStream

/-!
# Closing after sending

`close()` only marks the connection and asks for `EPOLLOUT`, so that `do_send` may empty
`send_buffer` before `do_close`. But `process_event` ends in `do_close` for every event of a closing
connection, whatever is still in the buffer: `close_loses_bytes` is a run without any error that
loses a byte. What was sent before a `close()` arrives exactly if that last test of `process_event`
finds the buffer empty (`flushedAtClose_of_steps`).
-/

namespace SNet.Tcp

variable {as : List Action} {buf : Nat → UInt8}

/-- At the `::close` of `do_close`, what was appended before the `close()` has been accepted by
`::send`. -/
def FlushedAtClose (tr : List Event) : Prop :=
  ∀ u v w sd, tr = u ++ .closing :: (v ++ .closeSd .doClose sd :: w) →
    appended u <+: accepted (u ++ .closing :: v)

/-- The step carries no hard error of `::send`, no error or end of the stream from `::recv`, and no
`EPOLLERR`. -/
def Graceful : Action → Prop
  | .send _ r _ | .write _ r _ => r ≠ .failed
  | .read _ _ r _ => r ≠ .failed ∧ r ≠ .data []
  | .processEvent evts => evts.has epollErr = false
  | _ => True

instance Graceful.decidable : ∀ a, Decidable (Graceful a)
  | .send .. | .write .. => inferInstanceAs (Decidable (¬ _))
  | .read .. => inferInstanceAs (Decidable (_ ∧ _))
  | .processEvent _ => inferInstanceAs (Decidable (_ = _))
  | .accept .. | .connect .. | .enableReconnect | .timer _ | .msend .. | .push .. | .close _
  | .epollWait _ | .onReady _ | .error .. | .finish _ => inferInstanceAs (Decidable True)

/-- Where the last test of `process_event` is about to close the descriptor, `send_buffer` is
empty. -/
def FinishesFlushed (s : Sys) : Action → Prop
  | .finish _ => s.conn.connStatus = .connClosing → s.conn.needReconnect = false →
      s.conn.sendBuffer = []
  | _ => True

instance FinishesFlushed.decidable (s : Sys) : ∀ a, Decidable (FinishesFlushed s a)
  | .finish _ => inferInstanceAs (Decidable (_ → _ → _))
  | .accept .. | .connect .. | .enableReconnect | .timer _ | .msend .. | .push .. | .send ..
  | .close _ | .epollWait _ | .processEvent _ | .onReady _ | .read .. | .write .. | .error .. =>
    inferInstanceAs (Decidable True)

/-- The `::close` of `do_close` comes after `EVT_DISCONNECT`, from a closing connection that does
not reconnect. -/
theorem doClose_split {c : TcpConnection} {ctl : Bool} {y w : List Event} {sd : Int}
    (h : (doClose c ctl).2 = y ++ .closeSd .doClose sd :: w) :
    c.connStatus = .connClosing ∧ c.needReconnect = false ∧ y = disconnect c ctl := by
  have hdis : Event.closeSd .doClose sd ∉ disconnect c ctl := fun he => by
    obtain h | h := disconnect_kind _ he <;> cases h
  unfold doClose at h
  split at h
  · next hs =>
    split at h
    · dsimp only at h
      exact absurd (h ▸ List.mem_append_right _ List.mem_cons_self) hdis
    · next hr =>
      refine ⟨hs, by simpa using hr, ?_⟩
      obtain ⟨v, hv, -⟩ | ⟨z, rfl, hz⟩ := Trace.split_append h
      · exact absurd (hv ▸ List.mem_append_right _ List.mem_cons_self) hdis
      · -- the `::close` is the first event after `disconnect`
        cases z with
        | nil => simp
        | cons b z =>
          split at hz <;> split at hz <;> cases z <;> simp at hz
  · simp at h

/-- Everything appended before a `::close` of `do_close` has been accepted. -/
def FlushedBefore (tr : List Event) : Prop :=
  ∀ x sd w, tr = x ++ .closeSd .doClose sd :: w → accepted x = appended x

theorem FlushedBefore.flushedAtClose {tr : List Event} (h : FlushedBefore tr) :
    FlushedAtClose tr := by
  intro u v w sd htr
  have := h (u ++ .closing :: v) sd w (by rw [htr, List.append_assoc, List.cons_append])
  rw [this, appended_append]
  exact List.prefix_append _ _

theorem flushedBefore_next {s : Sys} {a : Action} (hp : FinishesFlushed s a)
    (hflow : FifoFlow [] (appended s.trace) (accepted s.trace) s.conn.sendBuffer)
    (ih : FlushedBefore s.trace) : FlushedBefore (next s a).trace := by
  intro x sd w htr
  rw [next_trace] at htr
  obtain ⟨v, hv, -⟩ | ⟨y, rfl, hy⟩ := Trace.split_append htr
  · exact ih x sd v hv
  · obtain ⟨ctl, rfl⟩ := kind_shut (hy ▸ List.mem_append_right y List.mem_cons_self) rfl
    obtain ⟨hs, hr, rfl⟩ := doClose_split hy
    have hsilent : appended (disconnect s.conn ctl) = [] ∧ accepted (disconnect s.conn ctl) = [] :=
      ⟨appended_eq_nil fun e he => by obtain h | h := disconnect_kind e he <;> simp [h],
        accepted_eq_nil fun e he => by obtain h | h := disconnect_kind e he <;> simp [h]⟩
    have hempty := hflow.nil_left
    rw [hp hs hr, List.append_nil] at hempty
    rw [accepted_append, appended_append, hsilent.1, hsilent.2, hempty]

/-- **A closed connection was flushed** in every run in which the last test of `process_event` finds
`send_buffer` empty where it closes the descriptor. -/
theorem flushedAtClose_of_steps (h : machine.Runs (Sys.start buf) as)
    (hp : machine.Steps FinishesFlushed (Sys.start buf) as) :
    FlushedAtClose (machine.exec (Sys.start buf) as).trace := by
  refine FlushedBefore.flushedAtClose (h.invariant_of_steps (I := fun s =>
    FifoFlow [] (appended s.trace) (accepted s.trace) s.conn.sendBuffer ∧ FlushedBefore s.trace)
    ?_ hp ⟨.refl, fun x sd w htr => by simp [Sys.start] at htr⟩).2
  rintro s a ha hp ⟨hflow, ih⟩
  refine ⟨?_, flushedBefore_next hp hflow ih⟩
  simpa only [machine_next, next_trace, next_conn, appended_append, accepted_append] using
    hflow.trans (effect_sendFlow ha)

/-- Three bytes, of which `::send` takes one before `close()` and two after it. -/
def flushedClose : List Action :=
  accepting 5 ++
    [.msend 1 [.string [1, 2, 3]], .push 1 [.string [1, 2, 3]], .send 1 (.count 1) true,
      .send 1 .again true, .close true, .epollWait [(5, epollOut)], .processEvent epollOut,
      .onReady epollOut, .read epollOut handlePackage .again true, .write epollOut (.count 2) true,
      .error epollOut true, .finish true]

theorem flushedAtClose_of_steps_flushedClose :
    FlushedAtClose (machine.exec (Sys.start fun _ => 0) flushedClose).trace :=
  flushedAtClose_of_steps (by decide) (by decide)

/-- The same with a socket that takes only one more byte at the `EPOLLOUT`. -/
def fullSocketClose : List Action :=
  accepting 5 ++
    [.msend 1 [.string [1, 2, 3]], .push 1 [.string [1, 2, 3]], .send 1 (.count 1) true,
      .send 1 .again true, .close true, .epollWait [(5, epollOut)], .processEvent epollOut,
      .onReady epollOut, .read epollOut handlePackage .again true, .write epollOut (.count 1) true,
      .write epollOut .again true, .error epollOut true, .finish true]

theorem close_loses_bytes : ¬ ∀ as : List Action, machine.Runs (Sys.start fun _ => 0) as →
    (∀ a ∈ as, Graceful a) → FlushedAtClose (machine.exec (Sys.start fun _ => 0) as).trace := by
  intro h
  have hflushed := h fullSocketClose (by decide) (by decide)
  let tr := (machine.exec (Sys.start fun _ => 0) fullSocketClose).trace
  have hsplit : tr = tr.take 8 ++ .closing ::
      ((tr.drop 9).take 6 ++ .closeSd .doClose 5 :: tr.drop 16) := by decide
  exact absurd (hflushed _ _ _ _ hsplit) (by decide)

end SNet.Tcp
