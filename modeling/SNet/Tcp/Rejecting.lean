import SNet.Tcp.ReceiveStream

/-!
# Bytes that are handed on twice

Any sequence of `process_data` calls. What `handle_data` was given, followed by what is unread, is what
was received, with one exception: a call that hands packages on before `handle_package` announces more
than `kReadBufferSize` returns with these in the buffer still, as if they were unread
(`deliveredOnce_iff`).
-/

namespace SNet.Tcp

open Memory

/-! ## Calls -/

/-- The positions and lengths at which the loop of `process_data` calls `handle_data`. -/
def handedRanges (hp : PackageHandler) (buf : Nat → UInt8) (pos : Nat) :
    (fuel readPos : Nat) → List (Nat × Nat)
  | 0, _ => []
  | fuel + 1, readPos =>
    if readPos < pos then
      let pkgLen := hp buf readPos pos
      if pkgLen ≤ 0 ∨ (pos : Int) - readPos < pkgLen then []
      else (readPos, pkgLen.toNat) :: handedRanges hp buf pos fuel (readPos + pkgLen.toNat)
    else []

/-- A call of `process_data` after `bytes` have been stored behind what is unread. -/
structure ProcessCall where
  bytes : List UInt8
  hp : PackageHandler
  ctl : Bool

/-- What was received and handed on. A range is kept with the number of bytes that were in the
buffer. -/
structure ReceiveLog where
  received : List UInt8 := []
  delivered : List UInt8 := []
  ranges : List (Nat × Nat × Nat) := []

namespace ProcessCall

variable (call : ProcessCall) (c : TcpConnection)

/-- `read_buffer_pos` in the loop. -/
def pos : Nat := c.readBufferPos + call.bytes.length

def result : TcpConnection × List Event × Bool :=
  processData call.hp (c.receive call.bytes) call.bytes.length call.ctl

def log (l : ReceiveLog) : ReceiveLog where
  received := l.received ++ call.bytes
  delivered := l.delivered ++ (packages (call.result c).2.1).flatten
  ranges := l.ranges ++ (handedRanges call.hp (c.receive call.bytes).readBuffer (call.pos c)
    (call.pos c) 0).map fun r => (call.pos c, r.1, r.2)

end ProcessCall

/-- Calls whose bytes fit the free space. -/
def processing : Machine (TcpConnection × ReceiveLog) ProcessCall :=
  Machine.record
    { enabled := fun c call => call.pos c ≤ kReadBufferSize
      next := fun c call => (call.result c).1 }
    fun c call l => call.log c l

/-- Every byte received was handed on or is unread, and every range lay within the buffer. -/
structure DeliveredOnce (t : TcpConnection × ReceiveLog) : Prop where
  bytes : t.2.delivered ++ t.1.unread = t.2.received
  pos : t.1.readBufferPos ≤ kReadBufferSize
  within : ∀ pos start len, (pos, start, len) ∈ t.2.ranges → 0 < len ∧ start + len ≤ pos

/-! ## The condition -/

/-- From one position on packages lead to another, by what `handle_package` returns. -/
inductive PackagesTo (hp : PackageHandler) (buf : Nat → UInt8) (pos : Nat) : Nat → Nat → Prop
  | here (p : Nat) : PackagesTo hp buf pos p p
  | package {p q : Nat} : 0 < hp buf p pos → hp buf p pos ≤ (pos : Int) - p →
    PackagesTo hp buf pos (p + (hp buf p pos).toNat) q → PackagesTo hp buf pos p q

/-- `handle_package` announces no more than `kReadBufferSize` behind a package of the same call. -/
def AnnouncesFirst (c : TcpConnection) (call : ProcessCall) : Prop :=
  ∀ p, PackagesTo call.hp (c.receive call.bytes).readBuffer (call.pos c) 0 p → 0 < p →
    p < call.pos c → call.hp (c.receive call.bytes).readBuffer p (call.pos c) ≤ kReadBufferSize

/-! ## The loop -/

variable {hp : PackageHandler} {buf : Nat → UInt8} {c : TcpConnection} {call : ProcessCall}
  {calls : List ProcessCall} {t : TcpConnection × ReceiveLog} {fuel pos readPos : Nat}

theorem processLoop_fst : (processLoop hp buf pos fuel readPos).1 =
    (handedRanges hp buf pos fuel readPos).map fun r => slice buf r.1 r.2 := by
  induction fuel generalizing readPos with
  | zero => rfl
  | succ fuel ih =>
    simp only [processLoop, handedRanges]
    split
    · split
      · split <;> rfl
      · rw [List.map_cons, ← ih]
    · rfl

theorem handedRanges_within :
    ∀ r ∈ handedRanges hp buf pos fuel readPos, 0 < r.2 ∧ r.1 + r.2 ≤ pos := by
  induction fuel generalizing readPos with
  | zero => exact fun r hr => (by cases hr)
  | succ fuel ih =>
    simp only [handedRanges]
    split
    · split
      · exact fun r hr => (by cases hr)
      · next hlt hpkg =>
        refine List.forall_mem_cons.2 ⟨?_, ih⟩
        change 0 < (hp buf readPos pos).toNat ∧ readPos + (hp buf readPos pos).toNat ≤ pos
        omega
    · exact fun r hr => (by cases hr)

theorem PackagesTo.le {p q : Nat} (h : PackagesTo hp buf pos p q) : p ≤ q := by
  induction h with
  | here => exact Nat.le_refl _
  | package _ _ _ ih => exact Nat.le_trans (Nat.le_add_right _ _) ih

/-- Where the loop closes the connection, packages lead to an announcement that is too large. -/
theorem processLoop_none_iff (hpos : pos ≤ kReadBufferSize) (hfuel : pos ≤ readPos + fuel) :
    (processLoop hp buf pos fuel readPos).2 = none ↔
      ∃ p, PackagesTo hp buf pos readPos p ∧ p < pos ∧ kReadBufferSize < hp buf p pos := by
  induction fuel generalizing readPos with
  | zero =>
    refine iff_of_false (Option.some_ne_none _) ?_
    rintro ⟨p, hto, hlt, -⟩
    have hle := hto.le
    omega
  | succ fuel ih =>
    rw [processLoop]
    by_cases hlt : readPos < pos
    · rw [if_pos hlt]
      by_cases hstop : hp buf readPos pos ≤ 0 ∨ (pos : Int) - readPos < hp buf readPos pos
      · simp only [if_pos hstop]
        have hlast : (∃ p, PackagesTo hp buf pos readPos p ∧ p < pos ∧
            kReadBufferSize < hp buf p pos) ↔ kReadBufferSize < hp buf readPos pos := by
          refine ⟨fun h => ?_, fun hlarge => ⟨readPos, .here _, hlt, hlarge⟩⟩
          obtain ⟨p, hto, -, hlarge⟩ := h
          cases hto with
          | here => exact hlarge
          | package hpos' hle => omega
        rw [hlast]
        split
        · next hlarge => exact iff_of_true rfl hlarge
        · next hlarge => exact iff_of_false (Option.some_ne_none _) hlarge
      · simp only [if_neg hstop]
        rw [ih (by omega)]
        refine exists_congr fun p => and_congr_left fun hp' => ⟨?_, fun hto => ?_⟩
        · exact .package (by omega) (by omega)
        · cases hto with
          | here => omega
          | package _ _ hto => exact hto
    · rw [if_neg hlt]
      refine iff_of_false (Option.some_ne_none _) ?_
      rintro ⟨p, hto, hlt', -⟩
      have hle := hto.le
      omega

/-- **The rejecting exit** behind a package. -/
theorem processLoop_rejects_iff (hpos : pos ≤ kReadBufferSize) :
    (processLoop hp buf pos pos 0).2 = none ∧ (processLoop hp buf pos pos 0).1 ≠ [] ↔
      ∃ p, PackagesTo hp buf pos 0 p ∧ 0 < p ∧ p < pos ∧ kReadBufferSize < hp buf p pos := by
  rw [processLoop_none_iff hpos (by omega)]
  constructor
  · rintro ⟨⟨p, hto, hlt, hlarge⟩, hne⟩
    refine ⟨p, hto, Nat.pos_of_ne_zero fun hzero => hne ?_, hlt, hlarge⟩
    subst hzero
    rw [processLoop_reject hlt hlt (by omega) hlarge]
  · rintro ⟨p, hto, hp0, hlt, hlarge⟩
    refine ⟨⟨p, hto, hlt, hlarge⟩, ?_⟩
    cases hto with
    | here => exact absurd hp0 (Nat.lt_irrefl 0)
    | package hfirst hle hto =>
      rw [processLoop_deliver (by omega) hfirst (by omega)]
      exact List.cons_ne_nil _ _

/-! ## One call -/

theorem announcesFirst_iff (hfits : call.pos c ≤ kReadBufferSize) : AnnouncesFirst c call ↔
    ¬ ((processLoop call.hp (c.receive call.bytes).readBuffer (call.pos c) (call.pos c) 0).2 = none ∧
      (processLoop call.hp (c.receive call.bytes).readBuffer (call.pos c) (call.pos c) 0).1 ≠ []) := by
  rw [processLoop_rejects_iff hfits]
  constructor
  · rintro h ⟨p, hto, hp0, hlt, hlarge⟩
    exact Int.not_lt.2 (h p hto hp0 hlt) hlarge
  · intro h p hto hp0 hlt
    exact Int.not_lt.1 fun hlarge => h ⟨p, hto, hp0, hlt, hlarge⟩

theorem flatten_processLoop_ne_nil (h : (processLoop hp buf pos fuel readPos).1 ≠ []) :
    (processLoop hp buf pos fuel readPos).1.flatten ≠ [] := by
  have hwithin := @handedRanges_within hp buf fuel pos readPos
  rw [processLoop_fst] at h ⊢
  cases hranges : handedRanges hp buf pos fuel readPos with
  | nil =>
    rw [hranges] at h
    exact absurd rfl h
  | cons r rs =>
    rw [hranges] at hwithin
    intro hnil
    rw [List.map_cons, List.flatten_cons, List.append_eq_nil_iff] at hnil
    have hzero := congrArg List.length hnil.1
    rw [length_slice, List.length_nil] at hzero
    have hlen := (hwithin r (.head rs)).1
    omega

/-- A call that meets the condition neither loses bytes nor hands them on twice; any other leaves
what it has handed on in the buffer. -/
theorem processCall_bytes (hfits : call.pos c ≤ kReadBufferSize) :
    (AnnouncesFirst c call ∧
        c.unread ++ call.bytes = (packages (call.result c).2.1).flatten ++ (call.result c).1.unread) ∨
      (¬ AnnouncesFirst c call ∧ (packages (call.result c).2.1).flatten ≠ [] ∧
        (call.result c).1.unread = c.unread ++ call.bytes) := by
  have hoffered : (c.receive call.bytes).offered call.bytes.length = c.unread ++ call.bytes :=
    offered_receive
  have hpackages : packages (call.result c).2.1 = (processLoop call.hp
      (c.receive call.bytes).readBuffer (call.pos c) (call.pos c) 0).1 := packages_processData
  rw [announcesFirst_iff hfits, hpackages, ← hoffered]
  cases hloop : (processLoop call.hp (c.receive call.bytes).readBuffer (call.pos c) (call.pos c) 0).2
    with
  | some k =>
    refine .inl ⟨fun h => Option.some_ne_none k h.1, ?_⟩
    rw [← hpackages]
    exact processData_unread_of_some hloop
  | none =>
    have hunread : (call.result c).1.unread =
        (c.receive call.bytes).offered call.bytes.length := processData_unread_of_none hloop
    by_cases hnil : (processLoop call.hp (c.receive call.bytes).readBuffer (call.pos c) (call.pos c)
        0).1 = []
    · refine .inl ⟨fun h => h.2 hnil, ?_⟩
      rw [hnil, hunread]
      rfl
    · exact .inr ⟨fun h => h ⟨rfl, hnil⟩, flatten_processLoop_ne_nil hnil, hunread⟩

theorem processCall_pos (hfits : call.pos c ≤ kReadBufferSize) :
    (call.result c).1.readBufferPos ≤ kReadBufferSize := by
  cases hloop : (processLoop call.hp (c.receive call.bytes).readBuffer (call.pos c) (call.pos c) 0).2
    with
  | some k =>
    have hresult : (call.result c).1.readBufferPos = call.pos c - k :=
      congrArg (fun r : TcpConnection × List Event × Bool => r.1.readBufferPos)
        (processData_of_some hloop)
    omega
  | none =>
    have hresult : (call.result c).1.readBufferPos = call.pos c := by
      rw [ProcessCall.result, processData_of_none hloop]
      exact close_sameStreams.readBufferPos
    omega

/-- The `handle_package` of `TcpConnection` takes whatever is there. -/
theorem announcesFirst_handlePackage (hfits : call.pos c ≤ kReadBufferSize)
    (hhp : call.hp = handlePackage) : AnnouncesFirst c call := by
  intro p _ _ _
  rw [hhp]
  have hbmod : Int.bmod (call.pos c) (2 ^ 32) ≤ call.pos c := by
    rw [Int.bmod]
    split <;> omega
  exact Int.le_trans hbmod (Int.ofNat_le.2 hfits)

/-! ## Sequences of calls -/

/-- More bytes were handed on or are unread than were received. -/
def Excess (t : TcpConnection × ReceiveLog) : Prop :=
  t.2.received.length < t.2.delivered.length + t.1.unread.length

theorem Excess.next (h : Excess t) (hfits : processing.enabled t call) :
    Excess (processing.next t call) := by
  change (t.2.received ++ call.bytes).length <
    (t.2.delivered ++ (packages (call.result t.1).2.1).flatten).length +
      (call.result t.1).1.unread.length
  rw [Excess] at h
  rcases processCall_bytes hfits with ⟨-, hbytes⟩ | ⟨-, -, hunread⟩
  · have hlength := congrArg List.length hbytes
    simp only [List.length_append] at hlength ⊢
    omega
  · rw [hunread]
    simp only [List.length_append]
    omega

/-- **A call** keeps the bytes, or the excess that it makes stays. -/
theorem intact_next (h : t.2.delivered ++ t.1.unread = t.2.received)
    (hfits : processing.enabled t call) :
    (AnnouncesFirst t.1 call ∧ (processing.next t call).2.delivered ++
        (processing.next t call).1.unread = (processing.next t call).2.received) ∨
      (¬ AnnouncesFirst t.1 call ∧ Excess (processing.next t call)) := by
  change (AnnouncesFirst t.1 call ∧ t.2.delivered ++ (packages (call.result t.1).2.1).flatten ++
      (call.result t.1).1.unread = t.2.received ++ call.bytes) ∨
    (¬ AnnouncesFirst t.1 call ∧ (t.2.received ++ call.bytes).length <
      (t.2.delivered ++ (packages (call.result t.1).2.1).flatten).length +
        (call.result t.1).1.unread.length)
  refine (processCall_bytes hfits).imp (And.imp_right fun hbytes => ?_)
    (And.imp_right fun ⟨hne, hunread⟩ => ?_)
  · rw [List.append_assoc, ← hbytes, ← List.append_assoc, h]
  · have hpos := List.length_pos_iff.2 hne
    rw [hunread, ← h]
    simp only [List.length_append]
    omega

theorem not_intact_of_excess (h : Excess t) : t.2.delivered ++ t.1.unread ≠ t.2.received := by
  intro heq
  rw [Excess, ← heq, List.length_append] at h
  exact Nat.lt_irrefl _ h

theorem intact_iff (h : processing.Runs t calls)
    (hintact : t.2.delivered ++ t.1.unread = t.2.received) :
    (processing.exec t calls).2.delivered ++ (processing.exec t calls).1.unread =
        (processing.exec t calls).2.received ↔
      processing.Steps (fun t => AnnouncesFirst t.1) t calls := by
  induction calls generalizing t with
  | nil => exact iff_of_true hintact trivial
  | cons call calls ih =>
    rcases intact_next hintact h.1 with ⟨hfirst, hnext⟩ | ⟨hfirst, hexcess⟩
    · exact (ih h.2 hnext).trans (and_iff_right hfirst).symm
    · refine iff_of_false (not_intact_of_excess ?_) fun hsteps => hfirst hsteps.1
      exact h.2.invariant (fun _ _ hfits he => he.next hfits) hexcess

/-- **Every byte is delivered once**, whatever `handle_package` returns, if and only if no call
rejects a length behind a package. -/
theorem deliveredOnce_iff (hempty : c.readBufferPos = 0) (h : processing.Runs (c, {}) calls) :
    DeliveredOnce (processing.exec (c, {}) calls) ↔
      processing.Steps (fun t => AnnouncesFirst t.1) (c, {}) calls := by
  have hunread : c.unread = [] := by
    rw [TcpConnection.unread, hempty]
    rfl
  have hpos : (processing.exec (c, {}) calls).1.readBufferPos ≤ kReadBufferSize :=
    h.invariant (I := fun t => t.1.readBufferPos ≤ kReadBufferSize)
      (fun _ _ hfits _ => processCall_pos hfits) (hempty ▸ Nat.zero_le _)
  have hwithin : ∀ pos start len, (pos, start, len) ∈ (processing.exec (c, {}) calls).2.ranges →
      0 < len ∧ start + len ≤ pos := by
    refine h.invariant (I := fun t => ∀ pos start len, (pos, start, len) ∈ t.2.ranges →
      0 < len ∧ start + len ≤ pos) (fun t call _ ih pos start len hr => ?_)
      fun _ _ _ hr => by cases hr
    rcases List.mem_append.1 hr with hr | hr
    · exact ih pos start len hr
    · obtain ⟨r, hmem, heq⟩ := List.mem_map.1 hr
      cases heq
      exact handedRanges_within r hmem
  rw [← intact_iff h hunread]
  exact ⟨fun hd => hd.bytes, fun hbytes => ⟨hbytes, hpos, hwithin⟩⟩

def emptyConnection : TcpConnection where readBuffer _ := 0

/-- The first package is a byte; behind it the length of one is announced that no buffer holds. -/
def announcesSecond : PackageHandler := fun _ data _ => if data = 0 then 1 else 8388609

instance processing.decidableEnabled (t : TcpConnection × ReceiveLog) (call : ProcessCall) :
    Decidable (processing.enabled t call) := inferInstanceAs (Decidable (_ ≤ _))

theorem deliveredOnce_iff_first :
    DeliveredOnce (processing.exec (emptyConnection, {})
      [⟨[1], announcesSecond, true⟩, ⟨[2, 3], handlePackage, true⟩]) := by
  refine (deliveredOnce_iff rfl (by decide)).2 ⟨fun p _ hp0 hlt => ?_, ?_, trivial⟩
  · exact absurd hlt (Nat.not_lt.2 hp0)
  · have hhp : (⟨[2, 3], handlePackage, true⟩ : ProcessCall).hp = handlePackage := by
      dsimp only
    exact announcesFirst_handlePackage (by decide) hhp

theorem delivered_twice : ¬ ∀ (c : TcpConnection) (calls : List ProcessCall), c.readBufferPos = 0 →
    processing.Runs (c, {}) calls → DeliveredOnce (processing.exec (c, {}) calls) := by
  intro h
  have hbytes := (h emptyConnection [⟨[1, 2], announcesSecond, true⟩] rfl (by decide)).bytes
  revert hbytes
  decide

end SNet.Tcp
