import SNet.Tcp.Reading

/-!
# Reading until the socket is empty

With `EPOLLET` the worker hears of the bytes in a socket once, so `do_read` has to read until `::recv`
has nothing more. It reads again only if `process_data` left something in the buffer: where the
packages fit the received bytes exactly it returns, whatever is still in the socket. `drains_iff`
says that this is the only way to leave something behind; `fin_left_unread` is the end of a stream
that nobody reads.
-/

namespace SNet.Tcp

open Memory

variable {hp : PackageHandler} {ctl : Bool} {s t r : Reading} {inbox : Inbox}
  {bytes : List UInt8} {buf : Nat → UInt8} {pos readPos fuel : Nat}

/-- The lengths that `handle_package` returns lead exactly to the fill level. -/
inductive Tiles (hp : PackageHandler) (buf : Nat → UInt8) (pos : Nat) : Nat → Prop
  | done : Tiles hp buf pos pos
  | package {readPos : Nat} : readPos < pos → 0 < hp buf readPos pos →
      hp buf readPos pos ≤ (pos : Int) - readPos →
      Tiles hp buf pos (readPos + (hp buf readPos pos).toNat) → Tiles hp buf pos readPos

/-- Nothing is left that `::recv` would return, and no end of the stream. -/
def Inbox.Drained (inbox : Inbox) : Prop := inbox.pieces = [] ∧ inbox.last ≠ .eof

/-- The packages fit what this call has in the buffer, and the socket has more. -/
def StopsShort (hp : PackageHandler) (s : Reading) : Prop :=
  ∃ bytes inbox, s.stored = some (bytes, inbox) ∧ ¬ inbox.Drained ∧
    Tiles hp (s.conn.receive bytes).readBuffer (s.conn.readBufferPos + bytes.length) 0

theorem processLoop_iff_tiles (hle : readPos ≤ pos) (hfuel : pos - readPos ≤ fuel) :
    (processLoop hp buf pos fuel readPos).2 = some pos ↔ Tiles hp buf pos readPos := by
  induction fuel generalizing readPos with
  | zero =>
    have hpos : readPos = pos := by omega
    subst hpos
    exact iff_of_true rfl .done
  | succ fuel ih =>
    by_cases hlt : readPos < pos
    · by_cases hpkg : 0 < hp buf readPos pos ∧ hp buf readPos pos ≤ (pos : Int) - readPos
      · obtain ⟨hpos, hfits⟩ := hpkg
        rw [processLoop_deliver (Nat.succ_pos _) hpos hfits]
        refine (ih (by omega) (by omega)).trans ⟨.package hlt hpos hfits, fun h => ?_⟩
        cases h with
        | done => omega
        | package _ _ _ h => exact h
      · have hno : ¬ Tiles hp buf pos readPos := by
          intro h
          cases h with
          | done => omega
          | package _ hpos hfits _ => exact hpkg ⟨hpos, hfits⟩
        refine iff_of_false ?_ hno
        rw [processLoop, if_pos hlt, if_pos (by omega)]
        split
        · rintro ⟨⟩
        · exact fun h => absurd (Option.some.inj h) (by omega)
    · have hpos : readPos = pos := by omega
      subst hpos
      rw [processLoop, if_neg hlt]
      exact iff_of_true rfl .done

theorem processLoop_all_iff_tiles :
    (processLoop hp buf pos pos 0).2 = some pos ↔ Tiles hp buf pos 0 :=
  processLoop_iff_tiles (Nat.zero_le _) (Nat.le_refl _)

/-- `process_data` returns false with the status unchanged exactly if the packages fit. -/
theorem processData_of_tiles {c : TcpConnection} {n : Nat} (ctl : Bool)
    (h : Tiles hp c.readBuffer (c.readBufferPos + n) 0) :
    (processData hp c n ctl).2.2 = false ∧
      (processData hp c n ctl).1.connStatus = c.connStatus := by
  rw [processData_of_some (processLoop_all_iff_tiles.2 h)]
  exact ⟨by simp, rfl⟩

theorem tiles_of_processData {c : TcpConnection} {n : Nat} (hopen : c.connStatus = .connOpen)
    (hmore : (processData hp c n ctl).2.2 = false)
    (hstatus : (processData hp c n ctl).1.connStatus = .connOpen) :
    Tiles hp c.readBuffer (c.readBufferPos + n) 0 := by
  obtain ⟨k, -, hk, hstop, -⟩ := processLoop_flow hp c.readBuffer (c.readBufferPos + n)
    (Nat.zero_le (c.readBufferPos + n))
  rw [← processLoop_all_iff_tiles]
  obtain hsome | ⟨hnone, -⟩ := hstop
  · rw [processData_of_some hsome] at hmore
    have hall : k = c.readBufferPos + n := by
      have := of_decide_eq_false hmore
      omega
    rw [hsome, hall]
  · rw [processData_of_none hnone, close_status, hopen] at hstatus
    cases hstatus

/-- A call that returns with the connection open has drained the socket or stopped short. -/
theorem drained_of_inr (hv : s.Valid) (hopen : s.conn.connStatus = .connOpen)
    (hs : ¬ StopsShort hp s) (h : readRound hp ctl s = .inr r)
    (hstatus : r.conn.connStatus = .connOpen) : r.inbox.Drained := by
  cases hstored : s.stored with
  | none =>
    have hpieces := Reading.pieces_eq_nil hstored
    obtain ⟨tr, hr⟩ := readRound_of_none hp ctl hv hstored
    rw [hr] at h
    cases h
    refine ⟨hpieces, fun heof => ?_⟩
    dsimp only at heof hstatus
    rw [heof, if_neg (by decide), close_status, hopen] at hstatus
    cases hstatus
  | some q =>
    obtain ⟨bytes, inbox⟩ := q
    obtain ⟨tr, hr⟩ := readRound_of_some hp ctl hv hstored
    rw [hr] at h
    split at h
    · cases h
    · next hmore =>
      cases h
      by_contra hdrained
      exact hs ⟨bytes, inbox, hstored, hdrained,
        tiles_of_processData hopen (by simpa using hmore) hstatus⟩

/-- **Edge-triggered reading.** Whenever `do_read` returns with the connection open, nothing that was
in the socket is left unread, if and only if none of its calls finds packages that fit the buffered
bytes exactly while the socket has more. -/
theorem drains_iff (hv : s.Valid) (hopen : s.conn.connStatus = .connOpen) :
    (∀ r, (readRound hp ctl).Ends s r → r.conn.connStatus = .connOpen → r.inbox.Drained) ↔
    ∀ t, (readRound hp ctl).Reached s t → ¬ StopsShort hp t := by
  constructor
  · rintro h t ht ⟨bytes, inbox, hstored, hdrained, htiles⟩
    obtain ⟨tr, hr⟩ := readRound_of_some hp ctl (hv.reached ht) hstored
    obtain ⟨hmore, hstatus⟩ := processData_of_tiles ctl htiles
    rw [hmore, if_neg (by decide)] at hr
    refine hdrained (h _ (Loop.ends_iff.2 ⟨t, ht, hr⟩) ?_)
    exact hstatus.trans ((connStatus_reached hv ht).trans hopen)
  · intro h r hr hstatus
    obtain ⟨t, ht, hend⟩ := Loop.ends_iff.1 hr
    exact drained_of_inr (hv.reached ht) ((connStatus_reached hv ht).trans hopen) (h t ht) hend
      hstatus

/-- An open connection with an empty buffer, and three bytes in its socket. -/
def threeBytes (last : RecvEnd) : Reading where
  conn := { readBuffer := fun _ => 0, connStatus := .connOpen, connSd := 5 }
  inbox := ⟨[[1, 2, 3]], last, by decide⟩

theorem drains_iff_threeBytes :
    (∀ r, (readRound handlePackage true).Ends (threeBytes .wouldBlock) r →
      r.conn.connStatus = .connOpen → r.inbox.Drained) ↔
    ∀ t, (readRound handlePackage true).Reached (threeBytes .wouldBlock) t →
      ¬ StopsShort handlePackage t :=
  drains_iff ⟨by decide, by decide⟩ rfl

/-- The peer has closed its end behind the three bytes. -/
theorem fin_left_unread : ¬ ∀ (hp : PackageHandler) (ctl : Bool) (s : Reading), s.Valid →
    s.conn.connStatus = .connOpen → ∀ r, (readRound hp ctl).Ends s r →
    r.conn.connStatus = .connOpen → r.inbox.Drained := by
  intro h
  let r := ((readRound handlePackage true).run 1 (threeBytes .eof)).get (by decide)
  have hr : (readRound handlePackage true).Ends (threeBytes .eof) r := ⟨1, (Option.some_get _).symm⟩
  have hdrained := h _ _ _ ⟨by decide, by decide⟩ rfl r hr (by decide)
  exact hdrained.2 (by decide)

end SNet.Tcp
