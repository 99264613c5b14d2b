import SNet.Tcp.Setup

/-!
# The stream that a connection receives

Every `do_read` is a first-in first-out flow through `read_buffer` (`doRead_flow`), whatever
`handle_package` returns: what was unread, followed by what `::recv` returned, is the packages that
`handle_data` was given, followed by what is unread now. Only where `process_data` rejects an
announced length it leaves the bytes that it has handed on in the buffer; the connection is closing
then, and `do_read` does not call itself.
-/

namespace SNet.Tcp

open Memory

variable {hp : PackageHandler} {c : TcpConnection} {ctl : Bool} {pos readPos n : Nat}

/-- The loop hands on the bytes from `readPos` to the position at which it stops. -/
theorem processLoop_flow (hp : PackageHandler) (buf : Nat → UInt8) (fuel : Nat)
    (hle : readPos ≤ pos) :
    ∃ k, readPos ≤ k ∧ k ≤ pos ∧
      ((processLoop hp buf pos fuel readPos).2 = some k ∨
        (processLoop hp buf pos fuel readPos).2 = none ∧ k < pos) ∧
      slice buf readPos (pos - readPos) =
        (processLoop hp buf pos fuel readPos).1.flatten ++ slice buf k (pos - k) := by
  induction fuel generalizing readPos with
  | zero => exact ⟨readPos, Nat.le_refl _, hle, .inl rfl, rfl⟩
  | succ fuel ih =>
    simp only [processLoop]
    split
    · next hlt =>
      split
      · refine ⟨readPos, Nat.le_refl _, hle, ?_, ?_⟩ <;> split
        · exact .inr ⟨rfl, hlt⟩
        · exact .inl rfl
        · rfl
        · rfl
      · next hpkg =>
        have hlen : readPos + (hp buf readPos pos).toNat ≤ pos := by omega
        obtain ⟨k, hk, hkp, hstop, hslice⟩ := ih hlen
        refine ⟨k, by omega, hkp, hstop, ?_⟩
        rw [List.flatten_cons, List.append_assoc, ← hslice, ← slice_add]
        congr 1; omega
    · exact ⟨readPos, Nat.le_refl _, hle, .inl rfl, rfl⟩

/-- A round that hands a package on. -/
theorem processLoop_deliver {hp : PackageHandler} {buf : Nat → UInt8} {fuel : Nat}
    (hfuel : 0 < fuel) (hpos : 0 < hp buf readPos pos)
    (hle : hp buf readPos pos ≤ (pos : Int) - readPos) :
    processLoop hp buf pos fuel readPos =
      (slice buf readPos (hp buf readPos pos).toNat ::
          (processLoop hp buf pos (fuel - 1) (readPos + (hp buf readPos pos).toNat)).1,
        (processLoop hp buf pos (fuel - 1) (readPos + (hp buf readPos pos).toNat)).2) := by
  obtain ⟨fuel, rfl⟩ := Nat.exists_eq_add_of_lt hfuel
  rw [Nat.zero_add, processLoop, if_pos (by omega), if_neg (by omega), Nat.add_sub_cancel]

/-- A round that rejects the announced length. -/
theorem processLoop_reject {hp : PackageHandler} {buf : Nat → UInt8} {fuel : Nat}
    (hfuel : 0 < fuel) (hlt : readPos < pos) (hle : (pos : Int) - readPos < hp buf readPos pos)
    (hlimit : kReadBufferSize < hp buf readPos pos) :
    processLoop hp buf pos fuel readPos = ([], none) := by
  obtain ⟨fuel, rfl⟩ := Nat.exists_eq_add_of_lt hfuel
  rw [Nat.zero_add, processLoop, if_pos hlt, if_pos (.inr hle), if_pos hlimit]

/-- The loop stops where `handle_package` waits for more. -/
theorem processLoop_stop {hp : PackageHandler} {buf : Nat → UInt8} {fuel : Nat}
    (h : readPos < pos → hp buf readPos pos ≤ kReadBufferSize ∧
      (hp buf readPos pos ≤ 0 ∨ (pos : Int) - readPos < hp buf readPos pos)) :
    processLoop hp buf pos fuel readPos = ([], some readPos) := by
  cases fuel with
  | zero => rfl
  | succ fuel =>
    rw [processLoop]
    split
    · next hlt =>
      obtain ⟨hle, hstop⟩ := h hlt
      rw [if_pos hstop, if_neg (by omega)]
    · rfl

/-- What `process_data(n)` finds in the buffer. -/
def TcpConnection.offered (c : TcpConnection) (n : Nat) : List UInt8 :=
  slice c.readBuffer 0 (c.readBufferPos + n)

theorem offered_receive {bytes : List UInt8} :
    (c.receive bytes).offered bytes.length = c.unread ++ bytes :=
  slice_write_append

theorem processData_of_some {k : Nat}
    (h : (processLoop hp c.readBuffer (c.readBufferPos + n) (c.readBufferPos + n) 0).2 = some k) :
    processData hp c n ctl =
      ({ c with
          readBuffer := if k < c.readBufferPos + n then
            move c.readBuffer k (c.readBufferPos + n - k) else c.readBuffer
          readBufferPos := c.readBufferPos + n - k },
        (processLoop hp c.readBuffer (c.readBufferPos + n) (c.readBufferPos + n) 0).1.map
          .handleData,
        decide (0 < c.readBufferPos + n - k)) := by
  simp only [processData, h]

theorem processData_of_none
    (h : (processLoop hp c.readBuffer (c.readBufferPos + n) (c.readBufferPos + n) 0).2 = none) :
    processData hp c n ctl =
      ((close { c with readBufferPos := c.readBufferPos + n } ctl).1,
        (processLoop hp c.readBuffer (c.readBufferPos + n) (c.readBufferPos + n) 0).1.map
          .handleData ++ (close { c with readBufferPos := c.readBufferPos + n } ctl).2,
        false) := by
  simp only [processData, h]

theorem packages_close : packages (close c ctl).2 = [] :=
  packages_eq_nil fun e he => by simp [close_kind e he]

theorem received_close : received (close c ctl).2 = [] :=
  received_eq_nil fun e he => by simp [close_kind e he]

theorem received_processData : received (processData hp c n ctl).2.1 = [] := by
  unfold processData
  dsimp only
  split
  · rw [received_append, received_map_handleData, received_close, List.append_nil]
  · exact received_map_handleData

theorem packages_processData : packages (processData hp c n ctl).2.1 =
    (processLoop hp c.readBuffer (c.readBufferPos + n) (c.readBufferPos + n) 0).1 := by
  cases h : (processLoop hp c.readBuffer (c.readBufferPos + n) (c.readBufferPos + n) 0).2 with
  | none =>
    rw [processData_of_none h, packages_append, packages_map_handleData, packages_close,
      List.append_nil]
  | some k => rw [processData_of_some h, packages_map_handleData]

/-- Where the loop ends at a position, what it has not handed on is unread. -/
theorem processData_unread_of_some {k : Nat}
    (h : (processLoop hp c.readBuffer (c.readBufferPos + n) (c.readBufferPos + n) 0).2 = some k) :
    c.offered n = (packages (processData hp c n ctl).2.1).flatten ++
      (processData hp c n ctl).1.unread := by
  obtain ⟨k', -, hk, hstop, hslice⟩ := processLoop_flow hp c.readBuffer (c.readBufferPos + n)
    (Nat.zero_le (c.readBufferPos + n))
  obtain rfl : k' = k := by
    obtain hstop | ⟨hstop, -⟩ := hstop
    · exact Option.some.inj (hstop.symm.trans h)
    · cases hstop.symm.trans h
  rw [Nat.sub_zero] at hslice
  rw [packages_processData, processData_of_some h]
  dsimp only [TcpConnection.unread, TcpConnection.offered]
  rw [hslice]
  split
  · rw [slice_move]
  · rw [show c.readBufferPos + n - k' = 0 by omega, slice_zero, slice_zero]

/-- Where it closes the connection, all is unread. -/
theorem processData_unread_of_none
    (h : (processLoop hp c.readBuffer (c.readBufferPos + n) (c.readBufferPos + n) 0).2 = none) :
    (processData hp c n ctl).1.unread = c.offered n := by
  rw [processData_of_none h]
  exact close_sameStreams.unread

theorem processData_flow (hp : PackageHandler) (c : TcpConnection) (n : Nat) (ctl : Bool) :
    c.offered n = (packages (processData hp c n ctl).2.1).flatten ++
        (processData hp c n ctl).1.unread ∨
      (packages (processData hp c n ctl).2.1).flatten <+: c.offered n ∧
        (processData hp c n ctl).2.2 = false ∧
        (processData hp c n ctl).1.connStatus = (close c ctl).1.connStatus := by
  obtain ⟨k, -, -, hstop, hslice⟩ := processLoop_flow hp c.readBuffer (c.readBufferPos + n)
    (Nat.zero_le (c.readBufferPos + n))
  obtain hstop | ⟨hstop, -⟩ := hstop
  · exact .inl (processData_unread_of_some hstop)
  · right
    rw [Nat.sub_zero] at hslice
    rw [packages_processData, processData_of_none hstop, TcpConnection.offered, hslice]
    refine ⟨List.prefix_append _ _, rfl, ?_⟩
    rw [close_status, close_status]

theorem doRead_flow (hp : PackageHandler) (c : TcpConnection) (r : RecvAnswer) (ctl : Bool) :
    FifoFlow c.unread (received (doRead hp c r ctl).2.1) (packages (doRead hp c r ctl).2.1).flatten
        (doRead hp c r ctl).1.unread ∨
      (packages (doRead hp c r ctl).2.1).flatten <+:
          c.unread ++ received (doRead hp c r ctl).2.1 ∧
        (doRead hp c r ctl).2.2 = false ∧
        (doRead hp c r ctl).1.connStatus = (close c ctl).1.connStatus := by
  have closed : FifoFlow c.unread (received (close c ctl).2) (packages (close c ctl).2).flatten
      (close c ctl).1.unread := by
    rw [received_close, packages_close]
    exact .still rfl rfl close_sameStreams.unread
  unfold doRead
  split
  · split
    · exact .inl .refl
    · exact .inl closed
    · exact .inl closed
    · next bytes _ =>
      have h := processData_flow hp (c.receive bytes) bytes.length ctl
      have hrecv : ∀ evs, received (.recv c.connSd bytes :: evs) = bytes ++ received evs :=
        fun _ => rfl
      have hpkg : ∀ evs, packages (.recv c.connSd bytes :: evs) = packages evs := fun _ => rfl
      dsimp only
      rw [hrecv, hpkg, ← TcpConnection.receive, received_processData, List.append_nil]
      rw [offered_receive, close_status] at h
      rw [close_status]
      exact h
  · have h := processData_flow hp c 0 ctl
    rw [received_processData, List.append_nil]
    rw [TcpConnection.offered, Nat.add_zero, ← TcpConnection.unread] at h
    exact h.imp_left fun h => by rw [FifoFlow, List.append_nil, h]

/-! ## Steps -/

variable {s : Sys} {a : Action}

theorem doSend_unread {r : SendAnswer} : (doSend c r ctl).1.unread = c.unread := by
  unfold doSend
  split
  · rfl
  cases r with
  | again => rfl
  | failed => exact close_sameStreams.unread
  | count rc => dsimp only; split <;> rfl

/-- Only `do_read` receives, hands on packages and moves `read_buffer`. -/
theorem effect_quiet (s : Sys) (h : ∀ evts hp r ctl, a ≠ .read evts hp r ctl) :
    received (effect s a).2 = [] ∧ packages (effect s a).2 = [] ∧
      (effect s a).1.unread = s.conn.unread := by
  have hkind : ∀ e ∈ (effect s a).2, e.kind ≠ .receive := by
    intro e he hk
    have := effect_kind he
    cases a with
    | read evts hp r ctl => exact h evts hp r ctl rfl
    | _ => simp [hk, Action.kinds] at this
  refine ⟨received_eq_nil hkind, packages_eq_nil hkind, ?_⟩
  cases a with
  | accept | push | enableReconnect | msend | epollWait | processEvent => rfl
  | connect b r => exact connect_sameStreams.unread
  | timer r => exact reconnectTimer_sameStreams.unread
  | send t r ctl => exact doSend_unread
  | close ctl => exact close_sameStreams.unread
  | onReady evts => exact onReady_sameStreams.unread
  | read evts hp r ctl => exact absurd rfl (h evts hp r ctl)
  | write evts r ctl =>
    simp only [effect]
    split
    · exact doSend_unread
    · rfl
  | error evts ctl =>
    simp only [effect]
    split
    · exact close_sameStreams.unread
    · rfl
  | finish ctl => exact doClose_sameStreams.unread

/-- A step is a flow through `read_buffer`, or a `do_read` that ends since `process_data` rejects an
announced length. -/
theorem effect_receiveFlow (s : Sys) (a : Action) :
    FifoFlow s.conn.unread (received (effect s a).2) (packages (effect s a).2).flatten
        (effect s a).1.unread ∨
      (packages (effect s a).2).flatten <+: s.conn.unread ++ received (effect s a).2 ∧
        (∃ evts, (control s a).worker = .sending evts) ∧
        ∃ ctl, (effect s a).1.connStatus = (close s.conn ctl).1.connStatus := by
  by_cases h : ∃ evts hp r ctl, a = .read evts hp r ctl
  · obtain ⟨evts, hp, r, ctl, rfl⟩ := h
    simp only [effect, control]
    split
    · next hin =>
      refine (doRead_flow hp s.conn r ctl).imp_right ?_
      rintro ⟨hpre, hflag, hstatus⟩
      exact ⟨hpre, ⟨evts, by simp [hflag]⟩, ctl, hstatus⟩
    · exact .inl .refl
  · obtain ⟨hreceived, hpackages, hunread⟩ := effect_quiet s fun evts hp r ctl ha =>
      h ⟨evts, hp, r, ctl, ha⟩
    rw [hreceived, hpackages]
    exact .inl (.still rfl rfl hunread)

end SNet.Tcp
