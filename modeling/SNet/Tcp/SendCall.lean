import SNet.Tcp.Appending
import SNet.Tcp.Lifecycle

/-!
# One call of `send`

`send` with the `do_send` that it makes, while no other thread has the connection. The data is
appended in one block if the connection is open, whatever `::send` answers (`blocks_send`), and only
a hard error of `::send` closes the connection (`send_isOpen`, `send_closes`).
-/

namespace SNet.Tcp

variable {c : TcpConnection} {rs : Nat → SendAnswer} {ctl : Bool} {t n : Nat} {data : List UInt8}
  {evs evs' : List Event}

/-- A section that is repeated took something. -/
theorem doSend_shrinks {r : SendAnswer} (h : sendsAgain c r = true) :
    (doSend c r ctl).1.sendBuffer.length < c.sendBuffer.length := by
  cases r with
  | again | failed => cases h
  | count rc =>
    obtain ⟨hpos, hlt⟩ : 0 < rc ∧ rc < c.sendBuffer.length := by simpa [sendsAgain] using h
    have hne : c.sendBuffer ≠ [] := List.ne_nil_of_length_pos (Nat.lt_trans hpos hlt)
    rw [doSend, if_neg hne]
    simp only [if_pos (And.intro hpos hlt), List.length_drop]
    exact Nat.sub_lt (Nat.lt_trans hpos hlt) hpos

/-- `do_send` with the calls of itself; `rs` are the answers of `::send`, one after the other. -/
def doSends (c : TcpConnection) (rs : Nat → SendAnswer) (ctl : Bool) : TcpConnection × List Event :=
  let r := doSend c (rs 0) ctl
  if sendsAgain c (rs 0) then
    let r' := doSends r.1 (fun n => rs (n + 1)) ctl
    (r'.1, r.2 ++ r'.2)
  else r
termination_by c.sendBuffer.length
decreasing_by exact doSend_shrinks ‹_›

/-- `send(data)`, with the value that it returns: `msend`, which calls `do_send` unless something
was waiting in the buffer. -/
def send (c : TcpConnection) (thread : Nat) (data : List UInt8) (rs : Nat → SendAnswer)
    (ctl : Bool) : (TcpConnection × List Event) × Int :=
  let r := msend c thread [.string data]
  if c.isOpen && c.sendBuffer.isEmpty then
    let r' := doSends r.1.1 rs ctl
    ((r'.1, r.1.2 ++ r'.2), r.2)
  else r

/-! ## What is appended -/

/-- The blocks that are appended to the buffer. -/
def blocks (evs : List Event) : List (List UInt8) :=
  evs.filterMap fun | .append _ _ bytes => some bytes | _ => none

theorem blocks_append : blocks (evs ++ evs') = blocks evs ++ blocks evs' := List.filterMap_append

theorem blocks_eq_nil (h : ∀ e ∈ evs, e.kind ≠ .append) : blocks evs = [] := by
  refine List.filterMap_eq_nil_iff.2 fun e he => ?_
  have := h e he
  cases e <;> first | rfl | exact absurd rfl this

theorem blocks_close : blocks (close c ctl).2 = [] :=
  blocks_eq_nil fun e he => by simp [close_kind e he]

theorem blocks_doSend {r : SendAnswer} : blocks (doSend c r ctl).2 = [] :=
  blocks_eq_nil fun e he => by obtain h | h := doSend_kind e he <;> simp [h]

theorem blocks_doSends : blocks (doSends c rs ctl).2 = [] := by
  induction c, rs using doSends.induct ctl with
  | case1 c rs _ hagain ih =>
    rw [doSends, if_pos hagain]
    dsimp only
    rw [blocks_append, blocks_doSend, ih]
    rfl
  | case2 c rs hagain =>
    rw [doSends, if_neg hagain]
    exact blocks_doSend

/-! ## What becomes of the connection -/

/-- `::send` gives up while some of `n` bytes are left. -/
inductive Fails : Nat → (Nat → SendAnswer) → Prop
  | now {n : Nat} {rs : Nat → SendAnswer} : 0 < n → rs 0 = .failed → Fails n rs
  | later {n rc : Nat} {rs : Nat → SendAnswer} : rs 0 = .count rc → 0 < rc → rc < n →
      Fails (n - rc) (fun k => rs (k + 1)) → Fails n rs

/-- A section that is not repeated fails at once or not at all. -/
theorem fails_iff_of_last (h : sendsAgain c (rs 0) = false) :
    Fails c.sendBuffer.length rs ↔ c.sendBuffer ≠ [] ∧ rs 0 = .failed := by
  constructor
  · intro hfails
    cases hfails with
    | now hpos hfailed => exact ⟨List.ne_nil_of_length_pos hpos, hfailed⟩
    | later hcount hpos hlt _ => simp [sendsAgain, hcount, hpos, hlt] at h
  · intro ⟨hne, hfailed⟩
    exact .now (List.length_pos_iff.2 hne) hfailed

/-- A section that is repeated leaves it to the others to fail. -/
theorem fails_iff_of_again (ctl : Bool) (h : sendsAgain c (rs 0) = true) :
    Fails c.sendBuffer.length rs ↔
      Fails (doSend c (rs 0) ctl).1.sendBuffer.length (fun k => rs (k + 1)) := by
  cases hr : rs 0 with
  | again | failed => simp [sendsAgain, hr] at h
  | count rc =>
    obtain ⟨hpos, hlt⟩ : 0 < rc ∧ rc < c.sendBuffer.length := by simpa [sendsAgain, hr] using h
    have hne : c.sendBuffer ≠ [] := List.ne_nil_of_length_pos (Nat.lt_trans hpos hlt)
    rw [doSend, if_neg hne]
    simp only [if_pos (And.intro hpos hlt), List.length_drop]
    constructor
    · intro hfails
      cases hfails with
      | now _ hfailed => rw [hr] at hfailed; cases hfailed
      | later hcount _ _ hfails =>
        rw [hr] at hcount
        cases hcount
        exact hfails
    · exact .later hr hpos hlt

theorem isOpen_iff : c.isOpen = true ↔ 0 < c.connSd ∧ c.connStatus = .connOpen := by
  simp [TcpConnection.isOpen]

theorem isOpen_congr {c' : TcpConnection} (hsd : c'.connSd = c.connSd)
    (hstatus : c'.connStatus = c.connStatus) : c'.isOpen = c.isOpen := by
  rw [TcpConnection.isOpen, TcpConnection.isOpen, hsd, hstatus]

theorem close_of_open (ho : c.isOpen = true) : (close c ctl).1.connStatus = .connClosing := by
  rw [close_status, (isOpen_iff.1 ho).2]
  rfl

theorem doSend_isOpen {r : SendAnswer} (h : r = .failed → c.sendBuffer = []) :
    (doSend c r ctl).1.isOpen = c.isOpen :=
  isOpen_congr doSend_sameSetup.connSd (doSend_status_of_ne h)

/-- `do_send` leaves an open connection open unless it fails. -/
theorem doSends_isOpen (ho : c.isOpen = true) (h : ¬ Fails c.sendBuffer.length rs) :
    (doSends c rs ctl).1.isOpen = true := by
  induction c, rs using doSends.induct ctl with
  | case1 c rs _ hagain ih =>
    have hne : rs 0 = .failed → c.sendBuffer = [] := fun hr => by simp [sendsAgain, hr] at hagain
    rw [fails_iff_of_again ctl hagain] at h
    rw [doSends, if_pos hagain]
    exact ih ((doSend_isOpen hne).trans ho) h
  | case2 c rs hagain =>
    rw [fails_iff_of_last (Bool.eq_false_iff.2 hagain)] at h
    rw [doSends, if_neg hagain, doSend_isOpen fun hr => by_contra fun hne => h ⟨hne, hr⟩]
    exact ho

/-- A hard error closes it. -/
theorem doSends_closes (ho : c.isOpen = true) (h : Fails c.sendBuffer.length rs) :
    (doSends c rs ctl).1.connStatus = .connClosing := by
  induction c, rs using doSends.induct ctl with
  | case1 c rs _ hagain ih =>
    have hne : rs 0 = .failed → c.sendBuffer = [] := fun hr => by simp [sendsAgain, hr] at hagain
    rw [fails_iff_of_again ctl hagain] at h
    rw [doSends, if_pos hagain]
    exact ih ((doSend_isOpen hne).trans ho) h
  | case2 c rs hagain =>
    obtain ⟨hne, hfailed⟩ := (fails_iff_of_last (Bool.eq_false_iff.2 hagain)).1 h
    rw [doSends, if_neg hagain, hfailed]
    unfold doSend
    rw [if_neg hne]
    exact close_of_open ho

/-! ## The call -/

/-- `mpush` of one string. -/
theorem mpush_string {buf : List UInt8} : mpush buf [.string data] =
    (buf ++ data, Int.bmod (buf.length + data.length) (2 ^ 32)) := by
  have hreached : AllReached buf.length [.string data] := ⟨fun _ => rfl, trivial⟩
  have hbytes : [Fragment.string data].flatMap Fragment.bytes = data := List.append_nil data
  have hfst := mpush_fst_iff.2 hreached
  have hsnd := mpush_snd hreached
  have hsizes : sizesBefore buf.length [.string data] = buf.length := by
    simp [sizesBefore, Fragment.isNull]
  rw [hbytes] at hfst hsnd
  rw [hsizes] at hsnd
  refine Prod.ext hfst ?_
  rw [hsnd]

theorem msend_string (ho : c.isOpen = true) : msend c t [.string data] =
    (({ c with sendBuffer := c.sendBuffer ++ data },
      [.append t [.string data] data]), Int.bmod (c.sendBuffer.length + data.length) (2 ^ 32)) := by
  rw [msend, if_pos ho, push, mpush_string]
  dsimp only
  rw [List.drop_left]

/-- Nothing is appended to a connection that is not open. -/
theorem send_of_closed (ho : c.isOpen = false) : send c t data rs ctl = ((c, []), -1) := by
  rw [send, msend, ho]
  rfl

theorem blocks_send (ho : c.isOpen = true) : blocks (send c t data rs ctl).1.2 = [data] := by
  rw [send, msend_string ho]
  dsimp only
  split
  · dsimp only
    rw [blocks_append, blocks_doSends]
    rfl
  · rfl

theorem send_returned (ho : c.isOpen = true) : (send c t data rs ctl).2 =
    Int.bmod (c.sendBuffer.length + data.length) (2 ^ 32) := by
  have hmsend : (msend c t [.string data]).2 =
      Int.bmod (c.sendBuffer.length + data.length) (2 ^ 32) := by rw [msend_string ho]
  rw [← hmsend, send]
  split
  · rfl
  · rfl

/-- `::send` is called for the data, and gives up. -/
def SendFails (c : TcpConnection) (data : List UInt8) (rs : Nat → SendAnswer) : Prop :=
  c.sendBuffer = [] ∧ Fails data.length rs

theorem send_isOpen (ho : c.isOpen = true) (h : ¬ SendFails c data rs) :
    (send c t data rs ctl).1.1.isOpen = true := by
  rw [send, msend_string ho]
  dsimp only
  split
  · next hcalls =>
    have hnil : c.sendBuffer = [] := by simpa [ho] using hcalls
    refine doSends_isOpen ho fun hfails => h ⟨hnil, ?_⟩
    rwa [hnil, List.nil_append] at hfails
  · exact ho

theorem send_closes (ho : c.isOpen = true) (h : SendFails c data rs) :
    (send c t data rs ctl).1.1.connStatus = .connClosing := by
  have hcalls : (c.isOpen && c.sendBuffer.isEmpty) = true := by simp [ho, h.1]
  rw [send, msend_string ho, if_pos hcalls]
  refine doSends_closes ho ?_
  rw [h.1]
  exact h.2

end SNet.Tcp
