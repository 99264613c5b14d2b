import Mathlib.Data.List.GetD
import Mathlib.Order.Basic
import SNet.Http.ParserExecute

/-!
# What the parser takes for granted

`http_parser_execute` asserts what it relies on in the states of bodies and headers, and at the end
of a buffer that only one string is open. `Fields.Inv` is what these assertions rest on;
`executes_sound` says that it holds behind any buffers, so that no assertion fails.
-/

namespace SNet.Http.Parser

variable {h : Fields} {r : Round} {s : State} {ch : UInt8} {o o' o₀ : Option Mark} {n : Nat}

/-! ## Open strings -/

/-- The mark that is set behind an event, when each string is handed out before another is marked or
anything else is called back. -/
def Event.step : Option Mark → Event → Option (Option Mark)
  | none, .mark m => some (some m)
  | some m, .mark m' => if m' = m then some (some m) else none
  | none, .data _ _ _ => some none
  | some m, .data m' _ _ => if m' = m then some none else none
  | none, .notify _ _ => some none
  | some _, .notify _ _ => none

@[simp] theorem Event.step_mark_self {m : Mark} : step (some m) (.mark m) = some (some m) :=
  if_pos rfl

@[simp] theorem Event.step_data_self {m : Mark} {last advance : Bool} :
    step (some m) (.data m last advance) = some none :=
  if_pos rfl

theorem Event.of_step_mark {m : Mark} (he : step o (.mark m) = some o') :
    (o = none ∨ o = some m) ∧ o' = some m := by
  cases o with
  | none => exact ⟨.inl rfl, (Option.some.inj he).symm⟩
  | some m' =>
    obtain rfl : m = m' := by_contra fun hm => by simp [step, hm] at he
    exact ⟨.inr rfl, (Option.some.inj (step_mark_self.symm.trans he)).symm⟩

theorem Event.of_step_data {m : Mark} {last advance : Bool}
    (he : step o (.data m last advance) = some o') : (o = none ∨ o = some m) ∧ o' = none := by
  cases o with
  | none => exact ⟨.inl rfl, (Option.some.inj he).symm⟩
  | some m' =>
    obtain rfl : m = m' := by_contra fun hm => by simp [step, hm] at he
    exact ⟨.inr rfl, (Option.some.inj (step_data_self.symm.trans he)).symm⟩

theorem Event.of_step_notify {cb : Callback} {advance : Bool}
    (he : step o (.notify cb advance) = some o') : o = none ∧ o' = none := by
  cases o with
  | none => exact ⟨rfl, (Option.some.inj he).symm⟩
  | some m => cases he

/-- The states in which a part of the body may be marked. -/
def State.inBody : State → Prop
  | .bodyIdentity | .bodyIdentityEof | .chunkData | .chunkDataAlmostDone => True
  | _ => False

/-- Between two bytes the mark is the one that a buffer would begin with, but for a body. -/
def State.Opens (s : State) (o : Option Mark) : Prop := o = s.resumed ∨ s.inBody ∧ o = some .body

/-! ## What the states mean -/

/-- The states of `s_header_field`. -/
def HeaderState.ofField : HeaderState → Prop
  | .general | .c | .co | .con | .matchingConnection | .matchingProxyConnection
  | .matchingContentLength | .matchingTransferEncoding | .matchingUpgrade | .connection
  | .contentLength | .transferEncoding | .upgrade => True
  | _ => False

/-- The states of `s_header_value`. -/
def HeaderState.ofValue : HeaderState → Prop
  | .connection | .transferEncoding => False
  | _ => True

/-- The characters of a name that were seen. -/
def HeaderState.bound : HeaderState → Nat
  | .c | .matchingConnectionTokenStart => 0
  | .co => 1
  | .con => 2
  | .matchingConnection => 8
  | .matchingProxyConnection => 14
  | .matchingContentLength => 12
  | .matchingTransferEncoding => 15
  | .matchingUpgrade | .matchingTransferEncodingChunked | .matchingConnectionUpgrade => 5
  | .matchingConnectionKeepAlive => 8
  | .matchingConnectionClose => 3
  | _ => 16

/-- What a state takes for granted, where `n` bytes of its part were counted. No byte ends in a state
whose case follows at once. -/
def State.Means (n : Nat) (h : Fields) : State → Prop
  | .reqMethod => h.index ≤ h.method.string.length
  | .headerField => h.headerState.ofField ∧ h.index ≤ h.headerState.bound
  | .headerValue => h.headerState.ofValue ∧ h.index ≤ h.headerState.bound
  | .chunkSizeStart => h.flags.chunked ∧ h.nread = n
  | .chunkSize | .chunkParameters | .chunkSizeAlmostDone =>
    h.flags.chunked ∧ h.contentLength < ullongMax
  | .chunkData => h.flags.chunked ∧ h.contentLength ≠ 0 ∧ h.contentLength ≠ ullongMax
  | .chunkDataAlmostDone => h.flags.chunked ∧ h.contentLength = 0
  | .chunkDataDone => h.flags.chunked
  | .bodyIdentity => h.contentLength ≠ 0 ∧ h.contentLength ≠ ullongMax
  | .headersDone | .messageDone => False
  | _ => True

/-- No field is beyond its width. -/
structure Fields.Fits (h : Fields) : Prop where
  index : h.index < 2 ^ 7
  statusCode : h.statusCode < 2 ^ 16
  contentLength : h.contentLength < 2 ^ 64
  nread : h.nread < 2 ^ 32

/-- What does not depend on the state. -/
structure Fields.Usual (h : Fields) : Prop where
  errno : h.httpErrno = .ok
  index : h.index ≤ 17
  statusCode : h.statusCode ≤ 999
  contentLength : h.contentLength ≤ ullongMax
  nread : h.nread ≤ maxHeaderSize

/-- What holds between two bytes. -/
structure Fields.Inv (h : Fields) : Prop extends h.Usual where
  means : h.state.Means 0 h

/-! ## What a round does -/

/-- Nothing is wrong so far in a round that began with the mark `o₀`; now the mark is `o`. -/
structure Round.Ready (o₀ o : Option Mark) (r : Round) : Prop where
  usual : r.fields.Usual
  fault : r.fault = false
  marked : r.events.foldlM Event.step o₀ = some o

namespace Round.Ready

variable (hr : r.Ready o₀ o)
include hr

theorem enter : (r.enter s).Ready o₀ o := ⟨{ hr.usual with }, hr.fault, hr.marked⟩

theorem setFlags {f : Flags → Flags} : (r.setFlags f).Ready o₀ o :=
  ⟨{ hr.usual with }, hr.fault, hr.marked⟩

theorem setHeaderState {s : HeaderState} : (r.setHeaderState s).Ready o₀ o :=
  ⟨{ hr.usual with }, hr.fault, hr.marked⟩

theorem setMethod {m : Method} : (r.setMethod m).Ready o₀ o :=
  ⟨{ hr.usual with }, hr.fault, hr.marked⟩

theorem setType {t : ParserType} : (r.setType t).Ready o₀ o :=
  ⟨{ hr.usual with }, hr.fault, hr.marked⟩

theorem setVersion {major minor : Nat} : (r.setVersion major minor).Ready o₀ o :=
  ⟨{ hr.usual with }, hr.fault, hr.marked⟩

theorem setUpgrade {b : Bool} : (r.setUpgrade b).Ready o₀ o :=
  ⟨{ hr.usual with }, hr.fault, hr.marked⟩

theorem setIndex (hn : n ≤ 17) : (r.setIndex n).Ready o₀ o :=
  ⟨{ hr.usual with index := hn }, hr.fault, hr.marked⟩

theorem setContentLength (hn : n ≤ ullongMax) : (r.setContentLength n).Ready o₀ o :=
  ⟨{ hr.usual with contentLength := hn }, hr.fault, hr.marked⟩

theorem setStatusCode (hn : n ≤ 999) : (r.setStatusCode n).Ready o₀ o :=
  ⟨{ hr.usual with statusCode := hn }, hr.fault, hr.marked⟩

theorem setNread (hn : n ≤ maxHeaderSize) : (r.setNread n).Ready o₀ o :=
  ⟨{ hr.usual with nread := hn }, hr.fault, hr.marked⟩

theorem check {b : Bool} (hb : b) : (r.check b).Ready o₀ o :=
  ⟨{ hr.usual with }, by simp [Round.check, hr.fault, hb], hr.marked⟩

theorem event {e : Event} (he : e.step o = some o') : (r.event e).Ready o₀ o' :=
  ⟨{ hr.usual with }, hr.fault, by simp [Round.event, hr.marked, he]⟩

end Round.Ready

theorem Fields.Usual.fits (hu : h.Usual) : h.Fits where
  index := Nat.lt_of_le_of_lt hu.index (by decide)
  statusCode := Nat.lt_of_le_of_lt hu.statusCode (by decide)
  contentLength := Nat.lt_of_le_of_lt hu.contentLength (by decide)
  nread := Nat.lt_of_le_of_lt hu.nread (by decide)

/-- Nothing but strings was handed out. -/
def Round.Quiet (r : Round) : Prop := ∀ cb advance, .notify cb advance ∉ r.events

/-- How a round may end. -/
def Out.Sound (o₀ : Option Mark) : Out → Prop
  | .next r => ∃ o, r.Ready o₀ o ∧ r.fields.state.Opens o ∧ r.fields.state.Means 0 r.fields
  | .error r => r.fields.httpErrno ≠ .ok ∧ r.fields.Fits ∧ r.fault = false ∧ r.Quiet
  | .done r => r.Ready o₀ none ∧ r.fields.state.Means 0 r.fields ∧ r.fields.upgrade

section
variable (hr : r.Ready o₀ o)
include hr

theorem Round.Ready.next (ho : s.Opens o) (hm : s.Means 0 (r.enter s).fields) :
    Out.Sound o₀ (.next (r.enter s)) :=
  ⟨o, hr.enter, ho, hm⟩

theorem Round.Ready.stay (hs : r.fields.state = s) (ho : s.Opens o) (hm : s.Means 0 r.fields) :
    Out.Sound o₀ (.next r) :=
  ⟨o, hr, hs ▸ ho, hs ▸ hm⟩

theorem Round.Ready.fail {e : Errno} (hq : r.Quiet) (he : e ≠ .ok) : Out.Sound o₀ (r.fail e) :=
  ⟨he, { hr.usual.fits with }, hr.fault, hq⟩

theorem Round.Ready.expect {c : UInt8} {e : Errno} (hq : r.Quiet) (he : e ≠ .ok) (ho : s.Opens o)
    (hm : s.Means 0 (r.enter s).fields) : Out.Sound o₀ (r.expect ch c s e) := by
  unfold Round.expect
  split
  · exact hr.fail hq he
  · exact hr.next ho hm

theorem Round.Ready.expectDigit {set : Nat → Round} (hq : r.Quiet)
    (hset : ∀ n, (set n).Ready o₀ o) (ho : s.Opens o)
    (hm : ∀ n, s.Means 0 ((set n).enter s).fields) : Out.Sound o₀ (r.expectDigit ch set s) := by
  unfold Round.expectDigit
  split
  · exact hr.fail hq (by decide)
  · exact (hset _).next ho (hm _)

end

theorem Round.Quiet.event {e : Event} (hq : r.Quiet) (he : ∀ cb advance, .notify cb advance ≠ e) :
    (r.event e).Quiet := by
  simp [Round.Quiet, Round.event, he, hq _ _]

theorem Fields.newMessage_cases :
    h.newMessage = .dead ∨ h.newMessage = .startReq ∨ h.newMessage = .startRes := by
  unfold newMessage startState
  split_ifs <;> simp

/-! ## Data -/

theorem Method.length_string (m : Method) : 3 ≤ m.string.length ∧ m.string.length ≤ 11 := by
  cases m <;> decide

theorem toNat_digit_le : (ch - chr '0').toNat ≤ ullongMax :=
  have h256 : 2 ^ 8 ≤ ullongMax := by decide
  Nat.le_trans (Nat.le_of_lt (UInt8.toNat_lt _)) h256

theorem toNat_digit_le_nine (hch : isNumber ch) : (ch - chr '0').toNat ≤ 9 := by
  simp only [isNumber, Bool.and_eq_true, decide_eq_true_eq, UInt8.le_iff_toNat_le] at hch
  rw [UInt8.toNat_sub_of_le _ _ (UInt8.le_iff_toNat_le.2 hch.1)]
  simp [chr] at hch ⊢
  omega

theorem unhex_le {v : Nat} (hv : unhex ch = some v) : v ≤ 15 := by
  unfold unhex at hv
  split_ifs at hv with hnumber hletter
  · rw [← Option.some.inj hv]
    exact Nat.le_trans (toNat_digit_le_nine hnumber) (by decide)
  · rw [← Option.some.inj hv]
    simp only [UInt8.le_iff_toNat_le] at hletter
    rw [UInt8.toNat_sub_of_le _ _ (UInt8.le_iff_toNat_le.2 hletter.1)]
    simp [chr] at hletter ⊢
    omega

theorem Method.length_of_turned {m m' : Method} (hm : m.turned n ch = some m') :
    n + 1 ≤ m'.string.length := by
  unfold turned at hm
  split at hm
  all_goals
    try split_ifs at hm
    all_goals
      cases hm
      try decide

theorem parseUrlChar_cases (s : State) (ch : UInt8) :
    parseUrlChar s ch = .dead ∨ (parseUrlChar s ch).resumed = some .url := by
  unfold parseUrlChar parseUrlChar.server
  split
  · exact .inl rfl
  split <;> (try split_ifs) <;> first | exact .inl rfl | exact .inr rfl

theorem State.Means.of_url (hs : s.resumed = some .url) : s.Means n h := by
  cases s <;> trivial

/-! ## The cases of the `switch` -/

namespace Round

/-! ### The end of a message -/

theorem Ready.complete (hr : r.Ready o₀ none) :
    ((r.enter r.fields.newMessage).notify .messageComplete).Ready o₀ none ∧
      r.fields.newMessage.Opens none ∧ ∀ h, r.fields.newMessage.Means 0 h := by
  refine ⟨hr.enter.event rfl, ?_⟩
  obtain hs | hs | hs := r.fields.newMessage_cases <;> rw [hs] <;> exact ⟨.inl rfl, fun _ => trivial⟩

theorem messageDone_sound (hr : r.Ready o₀ none) : r.messageDone.Sound o₀ := by
  obtain ⟨hc, ho, hm⟩ := hr.complete
  unfold messageDone
  dsimp only
  split
  case isTrue hu => exact ⟨hc, hm _, hu⟩
  case isFalse => exact ⟨none, hc, ho, hm _⟩

theorem headersDone_sound (hr : r.Ready o₀ none) : (r.headersDone lf).Sound o₀ := by
  unfold headersDone
  rw [if_neg (fun h => h rfl)]
  have hr := hr.setNread (Nat.zero_le _)
  obtain ⟨hc, ho, hm⟩ := hr.complete
  have hnext : Out.Sound o₀ (.next _) := ⟨none, hc, ho, hm _⟩
  dsimp only
  split_ifs with hu hskip hchunked hzero hmax heof
  · exact ⟨hc, hm _, (Bool.and_eq_true_iff.1 hu).1⟩
  · exact hnext
  · exact hr.next (.inl rfl) ⟨hchunked, rfl⟩
  · exact hnext
  · exact hr.next (.inl rfl) ⟨hzero, hmax⟩
  · exact hnext
  · exact hr.next (.inl rfl) trivial

theorem headersAlmostDone_sound (hr : r.Ready o₀ none) (hq : r.Quiet) :
    (r.headersAlmostDone ch).Sound o₀ := by
  unfold headersAlmostDone
  split_ifs with hch htrailing hboth
  · exact hr.fail hq (by decide)
  · exact messageDone_sound (hr.enter.event rfl)
  · exact hr.fail hq (by decide)
  · rw [not_not.1 hch]
    exact headersDone_sound (hr.enter.setUpgrade.event rfl)

/-! ### Header fields -/

theorem headerFieldStart_sound (hr : r.Ready o₀ none) (hq : r.Quiet) :
    (r.headerFieldStart ch).Sound o₀ := by
  unfold headerFieldStart
  dsimp only
  split
  · exact hr.next (.inl rfl) trivial
  split
  · exact headersAlmostDone_sound hr.enter hq
  split
  · exact hr.fail hq (by decide)
  · refine ⟨some .headerField, (((hr.event rfl).setIndex (Nat.zero_le _)).enter).setHeaderState,
      .inl rfl, ?_, Nat.zero_le _⟩
    dsimp only [setHeaderState]
    split_ifs <;> trivial

theorem headerValueStart_sound (hr : r.Ready o₀ none) (hq : r.Quiet) :
    (r.headerValueStart ch).Sound o₀ := by
  unfold headerValueStart
  have hr : (((r.setMark .headerValue).enter .headerValue).setIndex 0).Ready o₀
      (some .headerValue) := ((hr.event rfl).enter).setIndex (Nat.zero_le _)
  have hq : (((r.setMark .headerValue).enter .headerValue).setIndex 0).Quiet :=
    hq.event fun _ _ => by simp
  have hnext {s : HeaderState} (hs : s.ofValue) : Out.Sound o₀
      (.next ((((r.setMark .headerValue).enter .headerValue).setIndex 0).setHeaderState s)) :=
    ⟨_, hr.setHeaderState, .inl rfl, hs, Nat.zero_le _⟩
  dsimp only
  split
  case h_1 => exact ⟨_, hr.setFlags.setHeaderState, .inl rfl, trivial, Nat.zero_le _⟩
  case h_2 => exact hnext (by split_ifs <;> trivial)
  case h_3 =>
    split_ifs
    · exact hr.fail hq (by decide)
    · exact hr.fail hq (by decide)
    · exact ⟨_, (hr.setFlags.setContentLength toNat_digit_le).setHeaderState, .inl rfl, trivial,
        Nat.zero_le _⟩
  case h_4 hs => exact ⟨_, hr, .inl rfl, by rw [hs]; trivial, Nat.zero_le _⟩
  case h_5 => exact hnext (by split_ifs <;> trivial)
  case h_6 hs => exact ⟨_, hr, .inl rfl, by rw [hs]; trivial, Nat.zero_le _⟩
  case h_7 => exact hnext trivial

theorem headerValueDiscardWs_sound (hs : r.fields.state = .headerValueDiscardWs)
    (hr : r.Ready o₀ none) (hq : r.Quiet) : (r.headerValueDiscardWs ch).Sound o₀ := by
  unfold headerValueDiscardWs
  split_ifs
  · exact hr.stay hs (.inl rfl) trivial
  · exact hr.next (.inl rfl) trivial
  · exact hr.next (.inl rfl) trivial
  · exact headerValueStart_sound hr hq

theorem Ready.finishHeader (hr : r.Ready o₀ o) : r.finishHeader.Ready o₀ o := by
  unfold Round.finishHeader
  split
  any_goals exact hr.setFlags
  exact hr

theorem events_finishHeader : r.finishHeader.events = r.events := by
  unfold Round.finishHeader
  split <;> rfl

theorem Quiet.finishHeader (hq : r.Quiet) : r.finishHeader.Quiet := by
  rwa [Quiet, events_finishHeader]

theorem headerValueLws_sound (hr : r.Ready o₀ none) (hq : r.Quiet) :
    (r.headerValueLws ch).Sound o₀ := by
  unfold headerValueLws
  dsimp only
  split_ifs
  · exact headerValueStart_sound hr.setHeaderState.enter hq
  · exact headerValueStart_sound hr.enter hq
  · exact headerFieldStart_sound hr.finishHeader.enter hq.finishHeader

theorem headerAlmostDone_sound (hr : r.Ready o₀ none) (hq : r.Quiet) :
    (r.headerAlmostDone ch).Sound o₀ :=
  hr.expect hq (by decide) (.inl rfl) trivial

theorem headerValueDiscardLws_sound (hr : r.Ready o₀ none) (hq : r.Quiet) :
    (r.headerValueDiscardLws ch).Sound o₀ := by
  unfold headerValueDiscardLws
  split_ifs
  · exact hr.next (.inl rfl) trivial
  · exact hr.fail hq (by decide)
  · have hmark : (r.finishHeader.setMark .headerValue).Ready o₀ (some .headerValue) :=
      hr.finishHeader.event rfl
    refine headerFieldStart_sound (hmark.enter.event Event.step_data_self)
      (Quiet.event (hq.finishHeader.event ?_) ?_) <;> simp

/-! ### The first line -/

theorem startReq_sound (hs : r.fields.state = .startReq) (hr : r.Ready o₀ none) (hq : r.Quiet) :
    (r.startReq ch).Sound o₀ := by
  unfold startReq
  split
  · exact hr.stay hs (.inl rfl) trivial
  have hr := (hr.setFlags (f := fun _ => {})).setContentLength (Nat.le_refl _)
  dsimp only
  split
  · split
    · exact (hr.setMethod.setIndex (by decide)).fail hq (by decide)
    · exact hr.fail hq (by decide)
  case _ m hm =>
    have hlength : 1 ≤ m.string.length := Nat.le_trans (by decide) m.length_string.1
    exact ⟨none, ((hr.setMethod.setIndex (by decide)).enter).event rfl, .inl rfl, hlength⟩

theorem startReqOrRes_sound (hs : r.fields.state = .startReqOrRes) (hr : r.Ready o₀ none)
    (hq : r.Quiet) : (r.startReqOrRes ch).Sound o₀ := by
  unfold startReqOrRes
  split
  · exact hr.stay hs (.inl rfl) trivial
  have hr := (hr.setFlags (f := fun _ => {})).setContentLength (Nat.le_refl _)
  dsimp only
  split
  · exact ⟨none, hr.enter.event rfl, .inl rfl, trivial⟩
  · exact startReq_sound rfl hr.setType.enter hq

theorem resOrRespH_sound (hr : r.Ready o₀ none) (hq : r.Quiet) : (r.resOrRespH ch).Sound o₀ := by
  unfold resOrRespH
  split_ifs
  · exact hr.setType.next (.inl rfl) trivial
  · exact hr.fail hq (by decide)
  · exact ((hr.setType.setMethod).setIndex (by decide)).next (.inl rfl)
      (by decide : 2 ≤ Method.head.string.length)

theorem startRes_sound (hs : r.fields.state = .startRes) (hr : r.Ready o₀ none) (hq : r.Quiet) :
    (r.startRes ch).Sound o₀ := by
  unfold startRes
  split
  · exact hr.stay hs (.inl rfl) trivial
  have hr := (hr.setFlags (f := fun _ => {})).setContentLength (Nat.le_refl _)
  dsimp only
  split
  · exact ⟨none, hr.enter.event rfl, .inl rfl, trivial⟩
  · exact hr.fail hq (by decide)

theorem resFirstStatusCode_sound (hs : r.fields.state = .resFirstStatusCode) (hr : r.Ready o₀ none)
    (hq : r.Quiet) : (r.resFirstStatusCode ch).Sound o₀ := by
  unfold resFirstStatusCode
  split_ifs with hch
  · exact (hr.setStatusCode (Nat.le_trans (toNat_digit_le_nine hch) (by decide))).next (.inl rfl)
      trivial
  · exact hr.stay hs (.inl rfl) trivial
  · exact hr.fail hq (by decide)

theorem resStatus_sound (hs : r.fields.state = .resStatus) (hr : r.Ready o₀ (some .status)) :
    (r.resStatus ch).Sound o₀ := by
  unfold resStatus
  split_ifs
  · exact ⟨none, hr.enter.event Event.step_data_self, .inl rfl, trivial⟩
  · exact ⟨none, hr.enter.event Event.step_data_self, .inl rfl, trivial⟩
  · exact hr.stay hs (.inl rfl) trivial

theorem resStatusStart_sound (hr : r.Ready o₀ none) : (r.resStatusStart ch).Sound o₀ := by
  unfold resStatusStart
  have hr : (((r.setMark .status).enter .resStatus).setIndex 0).Ready o₀ (some .status) :=
    ((hr.event rfl).enter).setIndex (Nat.zero_le _)
  dsimp only
  split
  · exact resStatus_sound rfl hr
  · exact hr.stay rfl (.inl rfl) trivial

theorem resStatusCode_sound (hs : r.fields.state = .resStatusCode) (hr : r.Ready o₀ none)
    (hq : r.Quiet) : (r.resStatusCode ch).Sound o₀ := by
  unfold resStatusCode
  split
  case isTrue hch =>
    have hcode : r.fields.statusCode * 10 + (ch - chr '0').toNat < 2 ^ 16 := by
      have := hr.usual.statusCode
      have := toNat_digit_le_nine hch
      omega
    dsimp only
    split
    · exact ⟨by simp, { hr.usual.fits with statusCode := hcode }, hr.fault, hq⟩
    case isFalse hle => exact (hr.setStatusCode (Nat.le_of_not_lt hle)).stay hs (.inl rfl) trivial
  split_ifs
  · exact hr.next (.inl rfl) trivial
  · exact resStatusStart_sound hr.enter
  · exact hr.fail hq (by decide)

theorem reqMethod_sound (hs : r.fields.state = .reqMethod) (hr : r.Ready o₀ none) (hq : r.Quiet)
    (hm : r.fields.index ≤ r.fields.method.string.length) : (r.reqMethod ch).Sound o₀ := by
  unfold reqMethod
  split
  · exact hr.fail hq (by decide)
  case isFalse hzero =>
  have hr := hr.check (decide_eq_true hm)
  have hindex : r.fields.index + 1 ≤ 17 :=
    Nat.succ_le_succ (Nat.le_trans hm (Nat.le_trans (Method.length_string _).2 (by decide)))
  dsimp only
  split
  · exact (hr.enter.setIndex hindex).stay rfl (.inl rfl) trivial
  split
  case isTrue hch =>
    have hlt : r.fields.index < r.fields.method.string.length := by
      refine Nat.lt_of_not_le fun hle => hzero ?_
      rw [hch, List.getD_eq_default _ _ hle]
    exact (hr.setIndex hindex).stay hs (.inl rfl) hlt
  split
  · split
    · exact hr.fail hq (by decide)
    case _ m hturned =>
      exact (hr.setMethod.setIndex hindex).stay hs (.inl rfl) (Method.length_of_turned hturned)
  · exact hr.fail hq (by decide)

theorem urlChar_sound (hr : r.Ready o₀ (some .url)) (hq : r.Quiet) : (r.urlChar ch).Sound o₀ := by
  unfold urlChar
  dsimp only
  split
  · exact hr.enter.fail hq (by decide)
  case isFalse hdead =>
    have hs := (parseUrlChar_cases r.fields.state ch).resolve_left hdead
    exact hr.next (.inl hs.symm) (State.Means.of_url hs)

theorem reqSpacesBeforeUrl_sound (hs : r.fields.state = .reqSpacesBeforeUrl)
    (hr : r.Ready o₀ none) (hq : r.Quiet) : (r.reqSpacesBeforeUrl ch).Sound o₀ := by
  unfold reqSpacesBeforeUrl
  split
  · exact hr.stay hs (.inl rfl) trivial
  have hr : (r.setMark .url).Ready o₀ (some .url) := hr.event rfl
  have hq : (r.setMark .url).Quiet := hq.event fun _ _ => by simp
  dsimp only
  split
  · exact urlChar_sound hr.enter hq
  · exact urlChar_sound hr hq

theorem reqSchema_sound (hr : r.Ready o₀ (some .url)) (hq : r.Quiet) :
    (r.reqSchema ch).Sound o₀ := by
  unfold reqSchema
  split
  · exact hr.fail hq (by decide)
  · exact urlChar_sound hr hq

theorem reqUrl_sound (hr : r.Ready o₀ (some .url)) (hq : r.Quiet) : (r.reqUrl ch).Sound o₀ := by
  unfold reqUrl
  dsimp only
  split_ifs
  · exact ⟨none, hr.enter.event Event.step_data_self, .inl rfl, trivial⟩
  · exact ⟨none, hr.setVersion.enter.event Event.step_data_self, .inl rfl, trivial⟩
  · exact ⟨none, hr.setVersion.enter.event Event.step_data_self, .inl rfl, trivial⟩
  · exact urlChar_sound hr hq

theorem reqHttpStart_sound (hs : r.fields.state = .reqHttpStart) (hr : r.Ready o₀ none)
    (hq : r.Quiet) : (r.reqHttpStart ch).Sound o₀ := by
  unfold reqHttpStart
  split_ifs
  · exact hr.stay hs (.inl rfl) trivial
  · exact hr.next (.inl rfl) trivial
  · exact hr.next (.inl rfl) trivial
  · exact hr.fail hq (by decide)

theorem reqHttpEnd_sound (hr : r.Ready o₀ none) (hq : r.Quiet) : (r.reqHttpEnd ch).Sound o₀ := by
  unfold reqHttpEnd
  split_ifs
  · exact hr.next (.inl rfl) trivial
  · exact hr.next (.inl rfl) trivial
  · exact hr.fail hq (by decide)

/-! ### Chunks -/

theorem chunkSizeStart_sound (hr : r.Ready o₀ none) (hq : r.Quiet)
    (hm : r.fields.flags.chunked ∧ r.fields.nread = 1) : (r.chunkSizeStart ch).Sound o₀ := by
  unfold chunkSizeStart
  have hr := (hr.check (decide_eq_true hm.2)).check hm.1
  dsimp only
  split
  · exact hr.fail hq (by decide)
  case _ v hv =>
    have hlt : v < ullongMax := Nat.lt_of_le_of_lt (unhex_le hv) (by decide)
    exact (hr.setContentLength hlt.le).next (.inl rfl) ⟨hm.1, hlt⟩

theorem chunkSize_sound (hs : r.fields.state = .chunkSize) (hr : r.Ready o₀ none) (hq : r.Quiet)
    (hm : r.fields.flags.chunked ∧ r.fields.contentLength < ullongMax) :
    (r.chunkSize ch).Sound o₀ := by
  unfold chunkSize
  have hr := hr.check hm.1
  dsimp only
  split
  · exact hr.next (.inl rfl) hm
  split
  · split_ifs
    · exact hr.next (.inl rfl) hm
    · exact hr.fail hq (by decide)
  case _ v hv =>
    split
    · exact hr.fail hq (by decide)
    case isFalse hle =>
      have hlt : r.fields.contentLength * 16 + v < ullongMax := by
        have := unhex_le hv
        simp only [Round.check, ullongMax] at hle ⊢
        omega
      exact (hr.setContentLength hlt.le).stay hs (.inl rfl) ⟨hm.1, hlt⟩

theorem chunkParameters_sound (hs : r.fields.state = .chunkParameters) (hr : r.Ready o₀ none)
    (hm : r.fields.flags.chunked ∧ r.fields.contentLength < ullongMax) :
    (r.chunkParameters ch).Sound o₀ := by
  unfold chunkParameters
  have hr := hr.check hm.1
  dsimp only
  split
  · exact hr.next (.inl rfl) hm
  · exact hr.stay hs (.inl rfl) hm

theorem chunkSizeAlmostDone_sound (hr : r.Ready o₀ none) (hq : r.Quiet)
    (hm : r.fields.flags.chunked ∧ r.fields.contentLength < ullongMax) :
    (r.chunkSizeAlmostDone ch).Sound o₀ := by
  unfold chunkSizeAlmostDone
  have hr := hr.check hm.1
  dsimp only
  split
  · exact hr.fail hq (by decide)
  have hr := hr.setNread (Nat.zero_le _)
  split
  · exact ⟨none, hr.setFlags.enter.event rfl, .inl rfl, trivial⟩
  case isFalse hzero => exact ⟨none, hr.enter.event rfl, .inl rfl, hm.1, hzero, hm.2.ne⟩

theorem chunkDataAlmostDone_sound (hr : r.Ready o₀ o) (ho : State.chunkDataAlmostDone.Opens o)
    (hq : r.Quiet) (hm : r.fields.flags.chunked ∧ r.fields.contentLength = 0) :
    (r.chunkDataAlmostDone ch).Sound o₀ := by
  unfold chunkDataAlmostDone
  have hr := (hr.check hm.1).check (decide_eq_true hm.2)
  dsimp only
  split
  · exact hr.fail hq (by decide)
  · refine ⟨none, hr.enter.event ?_, .inl rfl, hm.1⟩
    obtain rfl | ⟨-, rfl⟩ := ho <;> rfl

theorem chunkDataDone_sound (hr : r.Ready o₀ none) (hq : r.Quiet) (hm : r.fields.flags.chunked) :
    (r.chunkDataDone ch).Sound o₀ := by
  unfold chunkDataDone
  have hr := hr.check hm
  dsimp only
  split
  · exact hr.fail hq (by decide)
  · exact ⟨none, (hr.setNread (Nat.zero_le _)).enter.event rfl, .inl rfl, hm, rfl⟩

/-! ### The cases that take one byte -/

theorem byte_sound (hr : r.Ready o₀ o) (hq : r.Quiet) (ho : r.fields.state.Opens o)
    (hm : r.fields.state.Means 1 r.fields) : (r.byte ch).Sound o₀ := by
  -- only a body may be open where a buffer begins with nothing
  have hmark {s : State} (hs : r.fields.state = s) (hb : ¬ s.inBody) : r.Ready o₀ s.resumed := by
    rw [hs] at ho
    rwa [← ho.resolve_right fun h => hb h.1]
  have hmeans {s : State} (hs : r.fields.state = s) : s.Means 1 r.fields := hs ▸ hm
  unfold byte
  cases hs : r.fields.state <;> dsimp only
  case dead =>
    split
    · exact (hmark hs id).stay hs (.inl rfl) trivial
    · exact hr.fail hq (by decide)
  case startReqOrRes => exact startReqOrRes_sound hs (hmark hs id) hq
  case resOrRespH => exact resOrRespH_sound (hmark hs id) hq
  case startRes => exact startRes_sound hs (hmark hs id) hq
  case resH | resHT | resHTT | resHTTP | resHttpDot | resHttpEnd | resLineAlmostDone =>
    exact (hmark hs id).expect hq (by decide) (.inl rfl) trivial
  case resHttpMajor | resHttpMinor | reqHttpMajor | reqHttpMinor =>
    exact (hmark hs id).expectDigit hq (fun _ => (hmark hs id).setVersion) (.inl rfl) fun _ => trivial
  case resFirstStatusCode => exact resFirstStatusCode_sound hs (hmark hs id) hq
  case resStatusCode => exact resStatusCode_sound hs (hmark hs id) hq
  case resStatusStart => exact resStatusStart_sound (hmark hs id)
  case resStatus => exact resStatus_sound hs (hmark hs id)
  case startReq => exact startReq_sound hs (hmark hs id) hq
  case reqMethod => exact reqMethod_sound hs (hmark hs id) hq (hmeans hs)
  case reqSpacesBeforeUrl => exact reqSpacesBeforeUrl_sound hs (hmark hs id) hq
  case reqSchema | reqSchemaSlash | reqSchemaSlashSlash | reqServerStart =>
    exact reqSchema_sound (hmark hs id) hq
  case reqServer | reqServerWithAt | reqPath | reqQueryStringStart | reqQueryString |
      reqFragmentStart | reqFragment =>
    exact reqUrl_sound (hmark hs id) hq
  case reqHttpStart => exact reqHttpStart_sound hs (hmark hs id) hq
  case reqHttpH | reqHttpHT | reqHttpHTT | reqHttpI | reqHttpIC | reqHttpHTTP | reqHttpDot |
      reqLineAlmostDone | headerValueDiscardWsAlmostDone =>
    exact (hmark hs id).expect hq (by decide) (.inl rfl) trivial
  case reqHttpEnd => exact reqHttpEnd_sound (hmark hs id) hq
  case headerFieldStart => exact headerFieldStart_sound (hmark hs id) hq
  case headerValueDiscardWs => exact headerValueDiscardWs_sound hs (hmark hs id) hq
  case headerValueDiscardLws => exact headerValueDiscardLws_sound (hmark hs id) hq
  case headerValueStart => exact headerValueStart_sound (hmark hs id) hq
  case headerAlmostDone => exact headerAlmostDone_sound (hmark hs id) hq
  case headerValueLws => exact headerValueLws_sound (hmark hs id) hq
  case headersAlmostDone => exact headersAlmostDone_sound (hmark hs id) hq
  case headersDone | messageDone => exact (hmeans hs).elim
  case chunkSizeStart => exact chunkSizeStart_sound (hmark hs id) hq (hmeans hs)
  case chunkSize => exact chunkSize_sound hs (hmark hs id) hq (hmeans hs)
  case chunkParameters => exact chunkParameters_sound hs (hmark hs id) (hmeans hs)
  case chunkSizeAlmostDone => exact chunkSizeAlmostDone_sound (hmark hs id) hq (hmeans hs)
  case chunkDataAlmostDone => exact chunkDataAlmostDone_sound hr (hs ▸ ho) hq (hmeans hs)
  case chunkDataDone => exact chunkDataDone_sound (hmark hs id) hq (hmeans hs)
  case headerField | headerValue | chunkData | bodyIdentity | bodyIdentityEof =>
    exact hr.stay hs (hs ▸ ho) (hmeans hs)

end Round

/-! ## The loops over a header -/

/-- A state of the loops over a header, of which some are left out, and as much of a name as it has
seen. -/
structure Matcher.Good (P : HeaderState → Prop) (m : Matcher) : Prop where
  state : P m.headerState
  index : m.index ≤ m.headerState.bound
  fault : m.fault = false

theorem HeaderState.bound_le (s : HeaderState) : s.bound ≤ 16 := by cases s <;> decide

namespace Matcher

variable {P : HeaderState → Prop} {m : Matcher} {v v' : Value} {l : List UInt8} {skip : Nat}

theorem Good.of_bound {s : HeaderState} (hm : m.Good P) (hs : P s) (hb : 16 ≤ s.bound) :
    Good P { m with headerState := s } :=
  ⟨hs, hm.index.trans (m.headerState.bound_le.trans hb), hm.fault⟩

theorem Good.expect {name : List UInt8} {goal fallback : HeaderState} {c : UInt8} (hm : m.Good P)
    (hname : m.headerState.bound + 2 = name.length) (hlength : name.length ≤ 17)
    (hgoal : P goal ∧ 16 ≤ goal.bound) (hfallback : P fallback ∧ 16 ≤ fallback.bound) :
    (m.expect name goal fallback c).Good P := by
  have hi := hm.index
  unfold Matcher.expect
  dsimp only
  split_ifs with hc hlast
  · exact ⟨hfallback.1, by have := hfallback.2; dsimp only; omega, hm.fault⟩
  · exact ⟨hgoal.1, by have := hgoal.2; dsimp only; omega, hm.fault⟩
  · exact ⟨hm.state, by dsimp only; omega, hm.fault⟩

/-- The next character of what may become one of several names. -/
theorem Good.next {s : HeaderState} (hm : m.Good P) (hs : P s) (hb : m.index < s.bound) :
    Good P { m with headerState := s, index := m.index + 1 } :=
  ⟨hs, hb, hm.fault⟩

theorem Good.fieldChar (hm : m.Good HeaderState.ofField) :
    (m.fieldChar ch).Good HeaderState.ofField := by
  have hi := hm.index
  have hs := hm.state
  have hgeneral : Good HeaderState.ofField { m with headerState := .general } :=
    hm.of_bound trivial le_rfl
  unfold Matcher.fieldChar
  cases hstate : m.headerState <;> rw [hstate] at hi hs <;> dsimp only
  case general => exact hm
  case c | co | con =>
    refine hm.next ?_ (Nat.lt_of_le_of_lt hi ?_) <;> split_ifs <;> trivial
  case matchingConnection | matchingProxyConnection | matchingContentLength |
      matchingTransferEncoding | matchingUpgrade =>
    exact hm.expect (by rw [hstate]; rfl) (by decide) ⟨trivial, le_rfl⟩ ⟨trivial, le_rfl⟩
  case connection | contentLength | transferEncoding | upgrade =>
    split
    · exact hgeneral
    · exact hm
  all_goals exact hs.elim

theorem fieldLoop_good (skip : Nat) (l : List UInt8) (hm : m.Good HeaderState.ofField) :
    (fieldLoop m skip l).1.Good HeaderState.ofField := by
  induction l generalizing m skip with
  | nil => cases skip <;> exact hm
  | cons ch l ih =>
    cases skip with
    | succ skip => exact ih skip hm
    | zero =>
      unfold fieldLoop
      split
      · exact hm
      · exact ih _ hm.fieldChar

end Matcher

/-- The same of a value, whose length does not exceed what is kept for it. -/
structure Value.Good (v : Value) : Prop extends v.toMatcher.Good HeaderState.ofValue where
  contentLength : v.contentLength ≤ ullongMax

namespace Value

variable {v v' : Value} {l : List UInt8} {skip : Nat} {lenient : Bool} {e : Errno}

theorem Good.setState {s : HeaderState} (hv : v.Good) (hs : s.ofValue) (hb : 16 ≤ s.bound) :
    (v.setState s).Good :=
  ⟨hv.of_bound hs hb, hv.contentLength⟩

theorem Good.expect {name : List UInt8} {goal fallback : HeaderState} {c : UInt8} (hv : v.Good)
    (hname : v.headerState.bound + 2 = name.length) (hlength : name.length ≤ 17)
    (hgoal : goal.ofValue ∧ 16 ≤ goal.bound) (hfallback : fallback.ofValue ∧ 16 ≤ fallback.bound) :
    (v.expect name goal fallback c).Good :=
  ⟨hv.toGood.expect hname hlength hgoal hfallback, hv.contentLength⟩

theorem Good.nextToken {flags : Flags} (hv : v.Good) : Good { v with flags := flags }.nextToken :=
  ⟨⟨trivial, le_rfl, hv.fault⟩, hv.contentLength⟩

theorem Good.afterToken {flags : Flags} (hv : v.Good) : (v.afterToken ch flags).Good := by
  unfold Value.afterToken
  split_ifs
  · exact hv.nextToken
  · exact hv.setState trivial le_rfl
  · exact hv

/-- What a character of a value leaves, whether it is an error or not. -/
def Keeps (r : Except Value Value) : Prop := ∀ v', r = .ok v' ∨ r = .error v' → v'.Good

theorem Good.ok (hv : v.Good) : Keeps (.ok v) := by
  rintro v' (h | h) <;> cases h
  exact hv

theorem Good.error (hv : v.Good) : Keeps (.error v) := by
  rintro v' (h | h) <;> cases h
  exact hv

theorem Good.contentDigit (hv : v.Good) : Keeps (v.contentDigit ch) := by
  unfold Value.contentDigit
  split
  · exact Good.ok (hv.setState trivial le_rfl)
  split
  · exact hv.error
  case isFalse hch =>
  split
  · exact hv.error
  case isFalse hle =>
    refine Good.ok ⟨hv.toGood, ?_⟩
    have := toNat_digit_le_nine (by simpa using hch)
    simp only [ullongMax] at hle ⊢
    omega

theorem Good.char (hv : v.Good) : Keeps (v.char ch) := by
  have hs := hv.state
  unfold Value.char
  cases hstate : v.headerState <;> rw [hstate] at hs <;> dsimp only
  case general => exact hv.ok
  case connection | transferEncoding => exact hs.elim
  case contentLength =>
    split
    · exact hv.ok
    · exact Good.contentDigit (hv.setState trivial le_rfl)
  case contentLengthNum => exact hv.contentDigit
  case contentLengthWs =>
    split
    · exact hv.ok
    · exact hv.error
  case matchingTransferEncodingChunked | matchingConnectionKeepAlive | matchingConnectionClose |
      matchingConnectionUpgrade =>
    exact Good.ok (hv.expect (by rw [hstate]; rfl) (by decide) ⟨trivial, le_rfl⟩ ⟨trivial, le_rfl⟩)
  case matchingConnectionTokenStart =>
    have hi := hv.index
    rw [hstate] at hi
    have hnext {s : HeaderState} (hs : s.ofValue) : (v.setState s).Good :=
      ⟨⟨hs, Nat.le_trans hi (Nat.zero_le _), hv.fault⟩, hv.contentLength⟩
    refine Good.ok ?_
    split_ifs
    any_goals exact hv
    all_goals exact hnext trivial
  case matchingConnectionToken =>
    split
    · exact hv.nextToken.ok
    · exact hv.ok
  case transferEncodingChunked =>
    split
    · exact Good.ok (hv.setState trivial le_rfl)
    · exact hv.ok
  case connectionKeepAlive | connectionClose | connectionUpgrade => exact hv.afterToken.ok
  all_goals exact Good.ok (hv.setState trivial le_rfl)

theorem valueLoop_good (hv : v.Good) : (valueLoop lenient v skip l).1.1.Good := by
  induction l generalizing v skip with
  | nil => cases skip <;> exact hv
  | cons ch l ih =>
    cases skip with
    | succ skip => exact ih hv
    | zero =>
      unfold valueLoop
      split
      · exact hv
      split
      · exact hv
      split
      · split
        · exact hv
        · exact ih hv
      · split
        case _ v' hv' => exact hv.char v' (.inr hv')
        case _ v' hv' => exact ih (hv.char v' (.inl hv'))

theorem valueLoop_error (he : (valueLoop lenient v skip l).1.2 = .error e) :
    e = .invalidHeaderToken ∨ e = .invalidContentLength := by
  induction l generalizing v skip with
  | nil => cases skip <;> cases he
  | cons ch l ih =>
    cases skip with
    | succ skip => exact ih he
    | zero =>
      unfold valueLoop at he
      split at he
      · cases he
      split at he
      · exact .inl (ValueEnd.error.inj he).symm
      split at he
      · split at he
        · exact .inl (ValueEnd.error.inj he).symm
        · exact ih he
      · split at he
        · exact .inr (ValueEnd.error.inj he).symm
        · exact ih he

end Value

/-! ## The cases that take many bytes -/

namespace Round

variable {l rest : List UInt8}

theorem Ready.count {k : Round → Out} (hr : r.Ready o₀ o) (hq : r.Quiet)
    (hk : ∀ n ≤ maxHeaderSize, (k (r.setNread n)).Sound o₀) : (r.count n k).Sound o₀ := by
  unfold Round.count
  dsimp only
  split
  · exact ⟨by simp, { hr.usual.fits with nread := Nat.mod_lt _ (by decide) }, hr.fault, hq⟩
  case isFalse hle => exact hk _ (Nat.le_of_not_lt hle)

theorem headerField_sound (hs : r.fields.state = .headerField) (hr : r.Ready o₀ (some .headerField))
    (hq : r.Quiet) (hm : r.fields.headerState.ofField ∧ r.fields.index ≤ r.fields.headerState.bound) :
    (r.headerField l).1.Sound o₀ := by
  unfold headerField
  have hgood := Matcher.fieldLoop_good 0 l
    (m := ⟨r.fields.headerState, r.fields.index, false⟩) ⟨hm.1, hm.2, rfl⟩
  generalize fieldLoop ⟨r.fields.headerState, r.fields.index, false⟩ 0 l = p at hgood ⊢
  obtain ⟨m, n⟩ := p
  have hr : (((r.setHeaderState m.headerState).setIndex m.index).check !m.fault).Ready o₀
      (some .headerField) :=
    (hr.setHeaderState.setIndex (hgood.index.trans (m.headerState.bound_le.trans (by decide)))).check
      (by rw [hgood.fault]; rfl)
  dsimp only at hgood ⊢
  split
  · exact hr.count hq fun n hn => ⟨_, hr.setNread hn, hs ▸ .inl rfl, by
      show State.Means 0 _ r.fields.state
      rw [hs]
      exact ⟨hgood.state, hgood.index⟩⟩
  · dsimp only
    refine hr.count hq fun n hn => ?_
    split
    · exact ⟨none, (hr.setNread hn).enter.event Event.step_data_self, .inl rfl, trivial⟩
    · exact (hr.setNread hn).fail hq (by decide)

theorem valueOut_sound {v : Value} {e : ValueEnd} (hs : r.fields.state = .headerValue)
    (hr : r.Ready o₀ (some .headerValue)) (hq : r.Quiet) (hv : v.Good)
    (he : ∀ e', e = .error e' → e' = .invalidHeaderToken ∨ e' = .invalidContentLength) :
    (r.valueOut ((v, e), n)).1.Sound o₀ := by
  have hr : (r.setValue v).Ready o₀ (some .headerValue) :=
    ((hr.setFlags.setContentLength hv.contentLength).setIndex
      (hv.index.trans (v.headerState.bound_le.trans (by decide)))).check (by rw [hv.fault]; rfl)
  cases e with
  | all =>
    refine hr.setHeaderState.count hq fun n hn =>
      ⟨_, hr.setHeaderState.setNread hn, hs ▸ .inl rfl, ?_⟩
    show State.Means 0 _ r.fields.state
    rw [hs]
    exact ⟨hv.state, hv.index⟩
  | eol ch =>
    unfold valueOut
    dsimp only
    split
    · have hr := (hr.enter (s := .headerAlmostDone)).setHeaderState (s := v.headerState)
      have hr : (Round.callData _ .headerValue).Ready o₀ none := hr.event Event.step_data_self
      exact hr.count (hq.event fun _ _ => by simp) fun n hn =>
        ⟨none, hr.setNread hn, .inl rfl, trivial⟩
    · dsimp only
      refine hr.enter.count hq ?_
      intro n hn
      refine headerAlmostDone_sound ?_ (Quiet.event hq ?_)
      · exact (hr.enter.setNread hn).setHeaderState.event Event.step_data_self
      · simp
  | error e =>
    obtain rfl | rfl := he e rfl
    · exact hr.fail hq (by decide)
    · exact hr.setHeaderState.fail hq (by decide)

theorem headerValue_sound (hs : r.fields.state = .headerValue) (hr : r.Ready o₀ (some .headerValue))
    (hq : r.Quiet) (hm : r.fields.headerState.ofValue ∧ r.fields.index ≤ r.fields.headerState.bound) :
    (r.headerValue l).1.Sound o₀ :=
  valueOut_sound hs hr hq (Value.valueLoop_good ⟨⟨hm.1, hm.2, rfl⟩, hr.usual.contentLength⟩)
    fun _ he => Value.valueLoop_error he

/-- What is left of a length that was given. -/
theorem Ready.length_sub_ne {n : Nat} (hr : r.Ready o₀ o) (hm : r.fields.contentLength ≠ ullongMax) :
    r.fields.contentLength - n ≠ ullongMax :=
  ((Nat.sub_le _ _).trans_lt (hr.usual.contentLength.lt_of_ne hm)).ne

/-- A piece of a body is marked. -/
theorem Ready.body {n : Nat} (hr : r.Ready o₀ o) (ho : s.Opens o) (hs : s.resumed = none) :
    ((r.setMark .body).setContentLength (r.fields.contentLength - n)).Ready o₀ (some .body) := by
  refine (hr.event ?_).setContentLength ((Nat.sub_le _ _).trans hr.usual.contentLength)
  obtain rfl | ⟨-, rfl⟩ := ho
  · rw [hs]
    rfl
  · rfl

theorem bodyIdentity_sound (hs : r.fields.state = .bodyIdentity) (hr : r.Ready o₀ o)
    (ho : State.bodyIdentity.Opens o)
    (hm : r.fields.contentLength ≠ 0 ∧ r.fields.contentLength ≠ ullongMax) :
    (r.bodyIdentity l).1.Sound o₀ := by
  unfold bodyIdentity
  have hr := hr.check (b := r.fields.contentLength ≠ 0 && r.fields.contentLength ≠ ullongMax)
    (by simp [hm])
  have hbody := hr.body (n := min r.fields.contentLength l.length) ho rfl
  dsimp only
  split
  · exact messageDone_sound (hbody.enter.event Event.step_data_self)
  case isFalse hzero =>
    refine ⟨_, hbody, hs ▸ .inr ⟨trivial, rfl⟩, ?_⟩
    show State.Means 0 _ r.fields.state
    rw [hs]
    exact ⟨hzero, hr.length_sub_ne hm.2⟩

theorem chunkData_sound (hs : r.fields.state = .chunkData) (hr : r.Ready o₀ o)
    (ho : State.chunkData.Opens o) (hm : r.fields.flags.chunked ∧
      r.fields.contentLength ≠ 0 ∧ r.fields.contentLength ≠ ullongMax) :
    (r.chunkData l).1.Sound o₀ := by
  unfold chunkData
  have hr := (hr.check hm.1).check
    (b := r.fields.contentLength ≠ 0 && r.fields.contentLength ≠ ullongMax) (by simp [hm])
  have hbody := hr.body (n := min r.fields.contentLength l.length) ho rfl
  dsimp only
  split
  case isTrue hzero => exact hbody.next (.inr ⟨trivial, rfl⟩) ⟨hm.1, hzero⟩
  case isFalse hzero =>
    refine ⟨_, hbody, hs ▸ .inr ⟨trivial, rfl⟩, ?_⟩
    show State.Means 0 _ r.fields.state
    rw [hs]
    exact ⟨hm.1, hzero, hr.length_sub_ne hm.2.2⟩

theorem switch_sound (hr : r.Ready o₀ o) (hq : r.Quiet) (ho : r.fields.state.Opens o)
    (hm : r.fields.state.Means 1 r.fields) : (r.switch ch rest).1.Sound o₀ := by
  have hmark {s : State} (hs : r.fields.state = s) (hb : ¬ s.inBody) : r.Ready o₀ s.resumed := by
    rw [hs] at ho
    rwa [← ho.resolve_right fun h => hb h.1]
  have hmeans {s : State} (hs : r.fields.state = s) : s.Means 1 r.fields := hs ▸ hm
  unfold switch
  split
  case h_1 hs => exact headerField_sound hs (hmark hs id) hq (hmeans hs)
  case h_2 hs => exact headerValue_sound hs (hmark hs id) hq (hmeans hs)
  case h_3 hs => exact bodyIdentity_sound hs hr (hs ▸ ho) (hmeans hs)
  case h_4 hs => exact chunkData_sound hs hr (hs ▸ ho) (hmeans hs)
  case h_5 hs =>
    rw [hs] at ho
    refine ⟨some .body, hr.event ?_, hs ▸ .inr ⟨trivial, rfl⟩, hs ▸ trivial⟩
    obtain rfl | ⟨-, rfl⟩ := ho <;> rfl
  case h_6 => exact byte_sound hr hq ho hm

end Round

/-! ## A whole run -/

theorem State.Means.of_ne (hs : s ≠ .chunkSizeStart) (hm : s.Means 0 h) : s.Means n h := by
  cases s <;> first | exact hm | exact absurd rfl hs

/-- The bytes counted of a part that begins here. -/
theorem State.Means.counted (hm : s.Means 0 h) :
    s.Means 1 { h with nread := (h.nread + 1) % 2 ^ 32 } := by
  cases s
  case chunkSizeStart => exact ⟨hm.1, congrArg (fun k => (k + 1) % 2 ^ 32) hm.2⟩
  all_goals exact hm

theorem Fields.round_sound (ch : UInt8) (rest : List UInt8) (hi : h.Inv)
    (ho : h.state.Opens o) : (h.round ch rest).1.Sound o := by
  have hr : Round.Ready o o ⟨h, [], false⟩ := ⟨hi.toUsual, rfl, rfl⟩
  have hq : Round.Quiet ⟨h, [], false⟩ := fun _ _ => List.not_mem_nil
  unfold Fields.round
  dsimp only
  split
  case isFalse hs =>
    exact Round.switch_sound hr hq ho (hi.means.of_ne fun hc => hs (hc ▸ rfl))
  split
  · exact ⟨by simp, { hr.usual.fits with nread := Nat.mod_lt _ (by decide) }, rfl, hq⟩
  case isFalse hle =>
    exact Round.switch_sound (hr.setNread (Nat.le_of_not_lt hle)) hq ho hi.means.counted

/-! ### Marks -/

namespace Run

variable {run : Run} {p : Nat} {passed last : List UInt8} {e : Event} {es : List Event}

/-- At most one string is open, and which. -/
def Open (o : Option Mark) (run : Run) : Prop := ∀ m, (run.mark m).isSome = true ↔ o = some m

theorem Open.advance (hm : run.Open o) : (run.advance passed).Open o := by
  simpa [Open, Run.advance] using hm

theorem fault_perform : (run.perform p passed last e).fault = run.fault := by
  cases e with
  | data m withLast advance => unfold perform; dsimp only; split <;> rfl
  | _ => rfl

theorem fields_perform : (run.perform p passed last e).fields = run.fields := by
  cases e with
  | data m withLast advance => unfold perform; dsimp only; split <;> rfl
  | _ => rfl

theorem Open.mark_eq_none {m : Mark} (hm : run.Open o) (ho : o ≠ some m) : run.mark m = none := by
  simpa using mt (hm m).1 ho

theorem Open.perform (hm : run.Open o) (he : e.step o = some o') :
    (run.perform p passed last e).Open o' := by
  cases e with
  | mark m =>
    obtain ⟨ho, rfl⟩ := Event.of_step_mark he
    intro m'
    show (Function.update run.mark m _ m').isSome = true ↔ _
    rcases eq_or_ne m' m with rfl | hm'
    · simp
    have ho' : o ≠ some m' := by obtain rfl | rfl := ho <;> simp [hm'.symm]
    simp [Function.update_of_ne hm', hm.mark_eq_none ho', hm'.symm]
  | data m withLast advance =>
    obtain ⟨ho, rfl⟩ := Event.of_step_data he
    intro m'
    have hnone (hm' : m' ≠ m) : run.mark m' = none :=
      hm.mark_eq_none (by obtain rfl | rfl := ho <;> simp [hm'.symm])
    unfold Run.perform
    dsimp only
    cases hmark : run.mark m with
    | none =>
      rcases eq_or_ne m' m with rfl | hm'
      · simp [hmark]
      · simp [hnone hm']
    | some bs =>
      rcases eq_or_ne m' m with rfl | hm'
      · simp
      · simp [Function.update_of_ne hm', hnone hm']
  | notify cb advance =>
    obtain ⟨rfl, rfl⟩ := Event.of_step_notify he
    exact hm

/-- What a round did to the run. -/
theorem performs (run : Run) (es : List Event) :
    (es.foldl (fun r e => r.perform p passed last e) run).fields = run.fields ∧
      (es.foldl (fun r e => r.perform p passed last e) run).fault = run.fault ∧
      ∀ o o', run.Open o → es.foldlM Event.step o = some o' →
        (es.foldl (fun r e => r.perform p passed last e) run).Open o' := by
  induction es generalizing run with
  | nil => exact ⟨rfl, rfl, fun o o' hm he => Option.some.inj he ▸ hm⟩
  | cons e es ih =>
    obtain ⟨hfields, hfault, hopen⟩ := ih (run.perform p passed last e)
    refine ⟨hfields.trans fields_perform, hfault.trans fault_perform, fun o o' hm he => ?_⟩
    obtain ⟨o₁, he₁, he⟩ := Option.bind_eq_some_iff.1 he
    exact hopen o₁ o' (hm.perform he₁) he

section
variable {o : Round} {l : List UInt8}

theorem fields_after : (run.after p n l o).fields = o.fields := (performs _ _).1

theorem fault_after : (run.after p n l o).fault = (run.fault || o.fault) := (performs _ _).2.1

theorem Open.after {o₀ o' : Option Mark} (hm : run.Open o₀)
    (he : o.events.foldlM Event.step o₀ = some o') : (run.after p n l o).Open o' :=
  (performs _ _).2.2 o₀ o' hm he

end

theorem open_start : (start h).Open h.state.resumed := by
  intro m
  unfold start
  dsimp only
  split
  case isTrue hs => simp [hs]
  case isFalse hs => simp [hs]

theorem fields_finish : (run.finish p).fields = run.fields := by
  unfold finish
  dsimp only
  rw [← List.foldl_map (f := fun m => Event.data m false false)
    (g := fun r e => Run.perform r p [] [] e), (performs _ _).1]

/-- Only one of the marks is left when the buffer ends. -/
theorem Open.fault_finish (hm : run.Open o) : (run.finish p).fault = run.fault := by
  have hmark : (fun m => (run.mark m).isSome) = fun m => decide (o = some m) :=
    funext fun m => Bool.eq_iff_iff.2 ((hm m).trans decide_eq_true_iff.symm)
  unfold finish
  dsimp only
  rw [← List.foldl_map (f := fun m => Event.data m false false)
    (g := fun r e => Run.perform r p [] [] e), (performs _ _).2.1, hmark]
  cases o with
  | none => exact Bool.or_false _
  | some m => cases m <;> exact Bool.or_false _

end Run

/-! ### The run keeps what holds between two bytes -/

/-- What holds of a parser behind any buffers: nothing is beyond its width, and unless there was an
error the next byte finds what its state takes for granted. -/
structure Fields.Valid (h : Fields) : Prop where
  fits : h.Fits
  inv : h.httpErrno = .ok → h.Inv

theorem Fields.Inv.valid (hi : h.Inv) : h.Valid := ⟨hi.fits, fun _ => hi⟩

theorem Fields.inv_init (t : ParserType) : (init t).Inv where
  errno := rfl
  index := Nat.zero_le _
  statusCode := Nat.zero_le _
  contentLength := Nat.zero_le _
  nread := Nat.zero_le _
  means := by cases t <;> trivial

theorem Run.loop_sound {run : Run} {p skip : Nat} {l : List UInt8} (hf : run.fault = false)
    (hi : run.fields.Inv) (hs : run.fields.state.Opens o) (ho : run.Open o) :
    (run.loop p skip l).1.fault = false ∧ (run.loop p skip l).1.fields.Valid := by
  induction l generalizing run p skip o with
  | nil =>
    cases skip
    all_goals
      unfold Run.loop
      rw [ho.fault_finish, fields_finish]
      exact ⟨hf, hi.valid⟩
  | cons ch l ih =>
    cases skip with
    | succ skip => exact ih hf hi hs ho
    | zero =>
      have hround := Fields.round_sound ch l hi hs
      unfold Run.loop
      split
      case h_1 r n hr =>
        rw [hr] at hround
        obtain ⟨o', hready, ho', hm'⟩ := hround
        have hfields : (run.after (p + n) n (ch :: l) r).fields = r.fields := fields_after
        refine ih ?_ (hfields ▸ ⟨hready.usual, hm'⟩) (hfields ▸ ho') (ho.after hready.marked).advance
        exact fault_after.trans (by rw [hf, hready.fault]; rfl)
      case h_2 r n hr =>
        rw [hr] at hround
        rw [fault_after, fields_after, hf]
        exact ⟨hround.2.2.1, hround.2.1, fun hok => absurd hok hround.1⟩
      case h_3 r n hr =>
        rw [hr] at hround
        rw [fault_after, fields_after, hf]
        exact ⟨hround.1.fault, Fields.Inv.valid ⟨hround.1.usual, hround.2.1⟩⟩

theorem executeEof_sound (hv : h.Valid) :
    (executeEof h).1.fault = false ∧ (executeEof h).1.fields.Valid := by
  unfold executeEof
  split
  case h_6 => exact ⟨rfl, { hv.fits with }, fun h => absurd h (by simp)⟩
  all_goals exact ⟨rfl, hv⟩

theorem execute_sound {data : List UInt8} (hv : h.Valid) :
    (execute h data).1.fault = false ∧ (execute h data).1.fields.Valid := by
  unfold execute
  split
  case isTrue hok => exact ⟨rfl, hv⟩
  case isFalse hok =>
  split
  · exact executeEof_sound hv
  · exact Run.loop_sound rfl (hv.inv (not_not.1 hok)) (.inl rfl) Run.open_start

end SNet.Http.Parser
