import Mathlib.Data.List.TakeWhile
import SNet.Http.ParserLoops
import SNet.Http.ParserReading
import SNet.Library.Scan

/-!
# Lines behind a status

Whatever lines follow the first one of a head, the parser reports no status with them: it stays inside
of the head until the empty line (`InHead`), or it stops (`Run.loop_reported`).
-/

namespace SNet.Http.Parser

open Codec (ResponseCallback)

variable {h h' : Fields} {r : Round} {run : Run} {s : State} {P Q : State → Prop} {v : Value}
  {c : UInt8} {x l rest tail passed last : List UInt8} {lines : List (List UInt8)}
  {codes : List Nat} {lenient : Bool} {p n skip : Nat}

/-! ## Rounds without a status -/

/-- A round that begins no status. -/
def Round.Silent (r : Round) : Prop := Event.mark .status ∉ r.events

theorem Round.Silent.event {e : Event} (hr : r.Silent) (he : e ≠ .mark .status) :
    (r.event e).Silent := by
  intro hmem
  obtain hmem | hmem := List.mem_append.1 hmem
  · exact hr hmem
  · exact he (List.mem_singleton.1 hmem).symm

/-- A silent round, behind which the state is one of `P` if the call goes on. -/
inductive Out.Stays (P : State → Prop) : Out → Prop
  | next {r : Round} : r.Silent → P r.fields.state → Stays P (.next r)
  | error {r : Round} : r.Silent → Stays P (.error r)
  | done {r : Round} : r.Silent → Stays P (.done r)

theorem Out.Stays.mono {o : Out} (ho : o.Stays P) (hPQ : ∀ s, P s → Q s) : o.Stays Q := by
  cases ho with
  | next hr hs => exact .next hr (hPQ _ hs)
  | error hr => exact .error hr
  | done hr => exact .done hr

/-- The states inside of a line. -/
def State.inText : State → Bool
  | .headerField | .headerValueDiscardWs | .headerValue => true
  | _ => false

/-- The states behind the carriage return of a line. -/
def State.behindCr : State → Bool
  | .resLineAlmostDone | .headerAlmostDone | .headerValueDiscardWsAlmostDone => true
  | _ => false

/-- The states in front of a line. -/
def State.atLine : State → Bool
  | .headerFieldStart | .headerValueLws | .headerValueDiscardLws => true
  | _ => false

namespace Round

theorem count_stays {k : Round → Out} (hr : r.Silent) (hk : ∀ m, (k (r.setNread m)).Stays P) :
    (r.count n k).Stays P := by
  unfold count
  dsimp only
  split
  · exact .error hr
  · exact hk _

theorem headerFieldStart_stays (hr : r.Silent) (hc : c ≠ cr ∧ c ≠ lf) :
    (r.headerFieldStart c).Stays (·.inText) := by
  unfold headerFieldStart
  rw [if_neg hc.1, if_neg hc.2]
  dsimp only
  split
  · exact .error hr
  · exact .next (hr.event (by simp)) rfl

theorem headerFieldStart_cr (hr : r.Silent) :
    (r.headerFieldStart cr).Stays (· = .headersAlmostDone) :=
  .next hr rfl

theorem headerValueStart_stays (hr : r.Silent) : (r.headerValueStart c).Stays (·.inText) := by
  have hr : (((r.setMark .headerValue).enter .headerValue).setIndex 0).Silent :=
    hr.event (by simp)
  unfold headerValueStart
  dsimp only
  split
  case h_3 =>
    split
    · exact .error hr
    split
    · exact .error hr
    · exact .next hr rfl
  all_goals exact .next hr rfl

theorem headerValueDiscardWs_stays (hs : r.fields.state = .headerValueDiscardWs) (hr : r.Silent)
    (hc : c ≠ cr ∧ c ≠ lf) : (r.headerValueDiscardWs c).Stays (·.inText) := by
  unfold headerValueDiscardWs
  rw [if_neg hc.1, if_neg hc.2]
  split
  · exact .next hr (by rw [hs]; rfl)
  · exact headerValueStart_stays hr

theorem finishHeader_silent (hr : r.Silent) : r.finishHeader.Silent := by
  unfold finishHeader
  split <;> exact hr

/-- The end of what was a header, with the first byte of a line. -/
theorem atLine_stays (hs : r.fields.state.atLine) (hr : r.Silent)
    (hstart : ∀ r : Round, r.Silent → (r.headerFieldStart c).Stays P)
    (hblank : c = chr ' ' ∨ c = 9 → ∀ s : State, s.inText → P s) : (r.byte c).Stays P := by
  have hdiscard (r : Round) (hr : r.Silent) :
      ((((r.finishHeader.setMark .headerValue).enter .headerFieldStart).callDataNoadvance
        .headerValue).headerFieldStart c).Stays P := by
    refine hstart _ (Silent.event ?_ (by simp))
    exact (finishHeader_silent hr).event (by simp)
  unfold byte
  cases hstate : r.fields.state <;> rw [hstate] at hs <;> try cases hs
  case headerFieldStart => exact hstart r hr
  case headerValueLws =>
    dsimp only
    unfold headerValueLws
    split
    case isTrue hc =>
      dsimp only
      refine (headerValueStart_stays ?_).mono (hblank hc)
      split <;> exact hr
    case isFalse => exact hstart _ (finishHeader_silent hr)
  case headerValueDiscardLws =>
    dsimp only
    unfold headerValueDiscardLws
    split
    case isTrue hc => exact .next hr (hblank hc _ rfl)
    case isFalse =>
      split
      · exact .error hr
      · exact hdiscard r hr

theorem messageDone_stays (hr : r.Silent) : r.messageDone.Stays fun _ => True := by
  have hr : ((r.enter r.fields.newMessage).notify .messageComplete).Silent := hr.event (by simp)
  unfold messageDone
  dsimp only
  split
  · exact .done hr
  · exact .next hr trivial

theorem headersDone_stays (hr : r.Silent) : (r.headersDone c).Stays fun _ => True := by
  unfold headersDone
  split
  · exact .error hr
  have hcomplete : (((r.setNread 0).enter (r.setNread 0).fields.newMessage).notify
      .messageComplete).Silent := Silent.event (r := (r.setNread 0).enter _) hr (by simp)
  dsimp only
  split
  · exact .done hcomplete
  split
  · exact .next hcomplete trivial
  split
  · exact .next hr trivial
  split
  · exact .next hcomplete trivial
  split
  · exact .next hr trivial
  split
  · exact .next hcomplete trivial
  · exact .next hr trivial

theorem headersAlmostDone_stays (hr : r.Silent) :
    (r.headersAlmostDone c).Stays fun _ => True := by
  unfold headersAlmostDone
  split
  · exact .error hr
  split
  · exact messageDone_stays (Silent.event (r := r.enter .messageDone) hr (by simp))
  split
  · exact .error hr
  · exact headersDone_stays (Silent.event (r := (r.enter .headersDone).setUpgrade _) hr (by simp))

end Round

/-! ## The loops -/

theorem noEol_cons (hx : NoEol (c :: x)) : (c ≠ cr ∧ c ≠ lf) ∧ NoEol x := by
  obtain ⟨hcr, hlf⟩ := hx
  rw [List.mem_cons, not_or] at hcr hlf
  exact ⟨⟨fun h => hcr.1 h.symm, fun h => hlf.1 h.symm⟩, hcr.2, hlf.2⟩

theorem noEol_sublist (hx : NoEol x) (hl : l.Sublist x) : NoEol l :=
  ⟨fun h => hx.1 (hl.mem h), fun h => hx.2 (hl.mem h)⟩

/-- A name ends in its line. -/
theorem Round.headerField_stays (hr : r.Silent) (hx : NoEol x) :
    (r.headerField (x ++ cr :: tail)).1.Stays fun s => s.inText ∧ ∃ x', NoEol x' ∧
      (x ++ cr :: tail).drop ((r.headerField (x ++ cr :: tail)).2 + 1) = x' ++ cr :: tail := by
  obtain ⟨d, y, hdrop, hd⟩ : ∃ d y, (x ++ cr :: tail).drop
      ((x ++ cr :: tail).takeWhile isToken).length = d :: y ∧
        (d = cr ∨ ∃ x', NoEol x' ∧ y = x' ++ cr :: tail) := by
    rw [Scan.drop_length_takeWhile, List.dropWhile_append]
    cases hrest : x.dropWhile isToken with
    | nil =>
      exact ⟨cr, tail, (if_pos rfl).trans (List.dropWhile_cons_of_neg (by decide)), .inl rfl⟩
    | cons d x' =>
      have hsub : (d :: x').Sublist x := hrest ▸ List.dropWhile_sublist _
      exact ⟨d, x' ++ cr :: tail, rfl, .inr ⟨x', (noEol_cons (noEol_sublist hx hsub)).2, rfl⟩⟩
  unfold headerField
  rw [fieldLoop_zero]
  dsimp only
  rw [hdrop]
  dsimp only
  refine count_stays hr fun m => ?_
  split
  case isTrue hcolon =>
    refine .next (Silent.event (by exact hr) (by simp)) ⟨rfl, ?_⟩
    obtain rfl | ⟨x', hx', rfl⟩ := hd
    · cases hcolon
    · exact ⟨x', hx', by rw [← List.tail_drop, hdrop]; rfl⟩
  case isFalse => exact .error hr

theorem valueRun_le (hn : valueRun lenient (x ++ cr :: tail) = .inr n) : n ≤ x.length := by
  have htext : ((x ++ cr :: tail).takeWhile (isText lenient)).length ≤ x.length := by
    rw [List.takeWhile_append]
    split
    · rw [List.takeWhile_cons_of_neg (by simp [isText]), List.append_nil]
    · exact (List.takeWhile_prefix _).length_le
  have hle : (((x ++ cr :: tail).take maxHeaderSize).takeWhile (isText lenient)).length ≤
      x.length := by
    rw [← List.take_takeWhile]
    exact (List.length_take_le' _ _).trans htext
  unfold valueRun at hn
  dsimp only at hn
  split at hn
  · split at hn
    · cases hn
      omega
    · cases hn
  · split at hn
    · cases hn
      omega
    · cases hn
      exact hle

/-- A value ends with its line; a value that is too long may end with the line feed. -/
theorem valueLoop_ends (lenient : Bool) (v : Value) (tail : List UInt8) (hx : NoEol x)
    (hskip : skip ≤ x.length + 1) :
    (∃ e, (valueLoop lenient v skip (x ++ cr :: lf :: tail)).1.2 = .error e) ∨
      (valueLoop lenient v skip (x ++ cr :: lf :: tail)).1.2 = .eol cr ∧
        (valueLoop lenient v skip (x ++ cr :: lf :: tail)).2 = x.length ∨
      (valueLoop lenient v skip (x ++ cr :: lf :: tail)).1.2 = .eol lf ∧
        (valueLoop lenient v skip (x ++ cr :: lf :: tail)).2 = x.length + 1 := by
  induction x generalizing v skip with
  | nil =>
    cases skip with
    | zero => exact .inr (.inl ⟨rfl, rfl⟩)
    | succ skip =>
      obtain rfl : skip = 0 := Nat.le_zero.1 (Nat.le_of_succ_le_succ hskip)
      exact .inr (.inr ⟨rfl, rfl⟩)
  | cons c x ih =>
    obtain ⟨hc, hx⟩ := noEol_cons hx
    -- what the loop does behind `c`
    have hnext (v : Value) (k : Nat) (hk : k ≤ x.length + 1) :
        let e := (valueLoop lenient v k (x ++ cr :: lf :: tail)).map id (· + 1)
        (∃ e', e.1.2 = .error e') ∨ e.1.2 = .eol cr ∧ e.2 = x.length + 1 ∨
          e.1.2 = .eol lf ∧ e.2 = x.length + 1 + 1 := by
      obtain he | ⟨he, hn⟩ | ⟨he, hn⟩ := ih v hx hk
      · exact .inl he
      · exact .inr (.inl ⟨he, congrArg (· + 1) hn⟩)
      · exact .inr (.inr ⟨he, congrArg (· + 1) hn⟩)
    cases skip with
    | succ skip => exact hnext v skip (Nat.le_of_succ_le_succ hskip)
    | zero =>
      rw [List.cons_append]
      unfold valueLoop
      rw [if_neg (not_or.2 hc)]
      split
      · exact .inl ⟨_, rfl⟩
      split
      case isTrue =>
        split
        case h_1 => exact .inl ⟨_, rfl⟩
        case h_2 skip hrun => exact hnext v skip (valueRun_le (x := c :: x) hrun)
      case isFalse =>
        split
        case h_1 => exact .inl ⟨_, rfl⟩
        case h_2 v' _ => exact hnext v' 0 (Nat.zero_le _)

theorem Round.headerValue_stays (hr : r.Silent) (hx : NoEol x) :
    (r.headerValue (x ++ cr :: lf :: tail)).1.Stays fun s =>
      s = .headerAlmostDone ∧ (x ++ cr :: lf :: tail).drop
          ((r.headerValue (x ++ cr :: lf :: tail)).2 + 1) = lf :: tail ∨
        s = .headerValueLws ∧ (x ++ cr :: lf :: tail).drop
          ((r.headerValue (x ++ cr :: lf :: tail)).2 + 1) = tail := by
  have hends := valueLoop_ends r.fields.lenientHttpHeaders ⟨⟨r.fields.headerState, r.fields.index,
    false⟩, r.fields.flags, r.fields.contentLength⟩ tail hx (Nat.zero_le _)
  have hcr : (x ++ cr :: lf :: tail).drop (x.length + 1) = lf :: tail := by
    rw [← List.drop_drop, List.drop_left]
    rfl
  have hlf : (x ++ cr :: lf :: tail).drop (x.length + 1 + 1) = tail := by
    rw [← List.drop_drop, hcr]
    rfl
  unfold headerValue
  dsimp only
  generalize valueLoop _ _ _ _ = e at hends ⊢
  obtain ⟨⟨v, e⟩, n⟩ := e
  dsimp only at hends
  obtain ⟨e', rfl⟩ | ⟨rfl, rfl⟩ | ⟨rfl, rfl⟩ := hends
  · cases e' <;> exact .error hr
  · unfold valueOut
    dsimp only
    rw [if_pos rfl]
    have hr' : (((r.setValue v).enter .headerAlmostDone).setHeaderState v.headerState |>.callData
      .headerValue).Silent := Silent.event (by exact hr) (by simp)
    exact count_stays hr' fun m => .next hr' (.inl ⟨rfl, hcr⟩)
  · unfold valueOut
    dsimp only
    rw [if_neg (by decide)]
    dsimp only
    refine count_stays (r := (r.setValue v).enter .headerAlmostDone) hr fun m => ?_
    unfold headerAlmostDone expect
    rw [if_neg (by simp)]
    exact .next (Silent.event (by exact hr) (by simp)) (.inr ⟨rfl, hlf⟩)

/-! ## Inside of a head -/

/-- The rest of a head, from the start of a line on. -/
def restOf (lines : List (List UInt8)) : List UInt8 := lines.flatMap (· ++ crlf) ++ crlf

/-- A parser inside of a head, of which there is `l` left. -/
inductive InHead : State → List UInt8 → Prop
  | text {s : State} {x : List UInt8} {lines : List (List UInt8)} : s.inText → NoEol x →
    (∀ l ∈ lines, l ≠ [] ∧ NoEol l) → InHead s (x ++ cr :: lf :: restOf lines)
  | behindCr {s : State} {lines : List (List UInt8)} : s.behindCr →
    (∀ l ∈ lines, l ≠ [] ∧ NoEol l) → InHead s (lf :: restOf lines)
  | line {s : State} {lines : List (List UInt8)} : s.atLine →
    (∀ l ∈ lines, l ≠ [] ∧ NoEol l) → InHead s (restOf lines)
  | last : InHead .headersAlmostDone [lf]
  | whole {s : State} : InHead s []

theorem restOf_cons (x : List UInt8) (lines : List (List UInt8)) :
    restOf (x :: lines) = x ++ cr :: lf :: restOf lines := by
  rw [restOf, restOf, List.flatMap_cons, List.append_assoc, List.append_assoc]
  rfl

/-- Inside of a line. -/
theorem Round.switch_text (hr : r.Silent) (hs : r.fields.state.inText) (hx : NoEol x)
    (hlines : ∀ l ∈ lines, l ≠ [] ∧ NoEol l) (hl : c :: rest = x ++ cr :: lf :: restOf lines) :
    (r.switch c rest).1.Stays fun s => InHead s ((c :: rest).drop ((r.switch c rest).2 + 1)) := by
  cases hstate : r.fields.state <;> rw [hstate] at hs <;> try cases hs
  case headerField =>
    have hswitch : r.switch c rest = r.headerField (c :: rest) := by
      simp only [switch, hstate]
    rw [hswitch, hl]
    refine (headerField_stays hr hx).mono ?_
    rintro s ⟨hs, x', hx', hdrop⟩
    rw [hdrop]
    exact .text hs hx' hlines
  case headerValue =>
    have hswitch : r.switch c rest = r.headerValue (c :: rest) := by
      simp only [switch, hstate]
    rw [hswitch, hl]
    refine (headerValue_stays hr hx).mono ?_
    rintro s (⟨rfl, hdrop⟩ | ⟨rfl, hdrop⟩)
    · rw [hdrop]
      exact .behindCr rfl hlines
    · rw [hdrop]
      exact .line rfl hlines
  case headerValueDiscardWs =>
    have hswitch : r.switch c rest = (r.headerValueDiscardWs c, 0) := by
      simp only [switch, byte, hstate]
    rw [hswitch]
    cases x with
    | nil =>
      cases hl
      exact .next hr (.behindCr rfl hlines)
    | cons d x =>
      cases hl
      obtain ⟨hd, hx⟩ := noEol_cons hx
      exact (headerValueDiscardWs_stays hstate hr hd).mono fun s hs => .text hs hx hlines

/-- **A round inside of a head** begins no status and stays inside of the head. -/
theorem Round.switch_inHead (hr : r.Silent) (hin : InHead r.fields.state (c :: rest)) :
    (r.switch c rest).1.Stays fun s => InHead s ((c :: rest).drop ((r.switch c rest).2 + 1)) := by
  generalize hs : r.fields.state = s at hin
  generalize hl : c :: rest = l at hin
  cases hin with
  | text htext hx hlines => exact hl ▸ switch_text hr (hs ▸ htext) hx hlines hl
  | @behindCr _ lines hb hlines =>
    cases hl
    obtain ⟨s', hs', hswitch⟩ : ∃ s' : State, s'.atLine ∧
        r.switch lf (restOf lines) = (.next (r.enter s'), 0) := by
      cases s <;> try cases hb
      case resLineAlmostDone =>
        exact ⟨.headerFieldStart, rfl, by simp only [switch, byte, hs]; rfl⟩
      case headerAlmostDone => exact ⟨.headerValueLws, rfl, by simp only [switch, byte, hs]; rfl⟩
      case headerValueDiscardWsAlmostDone =>
        exact ⟨.headerValueDiscardLws, rfl, by simp only [switch, byte, hs]; rfl⟩
    rw [hswitch]
    exact .next hr (.line hs' hlines)
  | @line _ lines hline hlines =>
    have hswitch : r.switch c rest = (r.byte c, 0) := by
      cases s <;> cases hline <;> simp only [switch, hs]
    rw [hswitch]
    have hatLine : r.fields.state.atLine := hs ▸ hline
    cases lines with
    | nil =>
      have hl : c :: rest = [cr, lf] := hl
      cases hl
      refine (atLine_stays hatLine hr (fun r hr => headerFieldStart_cr hr)
        fun hblank => absurd hblank (by decide)).mono ?_
      rintro s rfl
      exact .last
    | cons x lines =>
      obtain ⟨⟨hne, hx⟩, hrest⟩ := List.forall_mem_cons.1 hlines
      obtain ⟨d, x, rfl⟩ := List.exists_cons_of_ne_nil hne
      rw [restOf_cons] at hl ⊢
      cases hl
      obtain ⟨hd, hx⟩ := noEol_cons hx
      exact (atLine_stays hatLine hr (fun r hr => headerFieldStart_stays hr hd)
        fun _ s hs => hs).mono fun s hs => .text hs hx hrest
  | last =>
    cases hl
    have hswitch : r.switch lf [] = (r.headersAlmostDone lf, 0) := by
      simp only [switch, byte, hs]
    rw [hswitch]
    show (r.headersAlmostDone lf).Stays fun s => InHead s []
    exact (headersAlmostDone_stays hr).mono fun s _ => .whole
  | whole => cases hl

theorem Fields.round_inHead (hin : InHead h.state (c :: rest)) :
    (h.round c rest).1.Stays fun s => InHead s ((c :: rest).drop ((h.round c rest).2 + 1)) := by
  have hsilent (k : Nat) : Round.Silent ⟨{ h with nread := k }, [], false⟩ := List.not_mem_nil
  unfold Fields.round
  dsimp only
  split
  · split
    · exact .error (hsilent ((h.nread + 1) % 2 ^ 32))
    · exact Round.switch_inHead (hsilent _) hin
  · exact Round.switch_inHead (hsilent h.nread) hin

/-! ## Runs -/

namespace Run

/-- The codes that were reported; no status is open. -/
def Reported (run : Run) (codes : List Nat) : Prop :=
  run.mark .status = none ∧ (run.calls.map Prod.fst).filterMap ResponseCallback.code? = codes

theorem Reported.perform {e : Event} (hrun : run.Reported codes) (he : e ≠ .mark .status) :
    (run.perform p passed last e).Reported codes := by
  obtain ⟨hmark, hcalls⟩ := hrun
  cases e with
  | mark m =>
    have hm : Mark.status ≠ m := fun h => he (by rw [h])
    exact ⟨(Function.update_of_ne hm _ _).trans hmark, hcalls⟩
  | data m withLast advance =>
    unfold Run.perform
    dsimp only
    split
    case h_1 => exact ⟨hmark, hcalls⟩
    case h_2 bs hbs =>
      have hm : Mark.status ≠ m := fun h => by
        rw [← h, hmark] at hbs
        cases hbs
      refine ⟨(Function.update_of_ne hm _ _).trans hmark, ?_⟩
      rw [List.map_append, List.filterMap_append, hcalls]
      cases m
      case status => exact absurd rfl hm
      all_goals exact List.append_nil _
  | notify cb advance =>
    refine ⟨hmark, ?_⟩
    show ((run.calls ++ _).map Prod.fst).filterMap ResponseCallback.code? = codes
    rw [List.map_append, List.filterMap_append, hcalls]
    exact List.append_nil _

theorem Reported.foldl {es : List Event} (hrun : run.Reported codes)
    (hes : .mark .status ∉ es) :
    (es.foldl (fun r e => Run.perform r p passed last e) run).Reported codes := by
  induction es generalizing run with
  | nil => exact hrun
  | cons e es ih =>
    rw [List.mem_cons, not_or] at hes
    exact ih (hrun.perform fun h => hes.1 h.symm) hes.2

theorem Reported.after (hrun : run.Reported codes) (hr : r.Silent) :
    (run.after p n l r).Reported codes := by
  have hfields : { run with fields := r.fields, fault := run.fault || r.fault }.Reported codes :=
    hrun
  exact hfields.foldl hr

theorem Reported.advance (hrun : run.Reported codes) : (run.advance l).Reported codes :=
  ⟨congrArg (Option.map (· ++ l)) hrun.1, hrun.2⟩

theorem Reported.finish (hrun : run.Reported codes) : (run.finish p).Reported codes := by
  have hperform {run : Run} {m : Mark} (hrun : run.Reported codes) :
      (run.perform p [] [] (.data m false false)).Reported codes := hrun.perform (by simp)
  unfold Run.finish
  exact hperform (hperform (hperform (hperform (hperform hrun))))

/-- **The rest of a head** reports no status. -/
theorem loop_reported (hin : InHead run.fields.state l) (hrun : run.Reported codes) :
    (run.loop p 0 l).1.Reported codes := by
  induction hlen : l.length using Nat.strong_induction_on generalizing l run p with
  | _ k ih =>
    cases l with
    | nil => exact hrun.finish
    | cons c rest =>
      have hstays := Fields.round_inHead hin
      generalize hround : run.fields.round c rest = out at hstays
      obtain ⟨o, n⟩ := out
      cases hstays with
      | @next r hr hs =>
        rw [loop_next hround]
        refine ih _ ?_ ?_ (hrun.after hr).advance rfl
        · rw [← hlen, List.length_drop, List.length_cons]
          omega
        · show InHead (run.after (p + n) n (c :: rest) r).fields.state (rest.drop n)
          rw [fields_after]
          exact hs
      | error hr =>
        unfold loop
        rw [hround]
        exact hrun.after hr
      | done hr =>
        unfold loop
        rw [hround]
        exact hrun.after hr

end Run

/-- A text in front of the rest of a head. -/
theorem Consumes.reports {bs : List UInt8} {cs : List ResponseCallback}
    (ha : Consumes h none bs cs h' none) (hin : InHead h'.state rest) :
    (Run.loop ⟨h, marks none, [], false⟩ 0 0 (bs ++ rest)).1.Reported
      (cs.filterMap ResponseCallback.code?) := by
  obtain ⟨calls, fault, rfl, hloop⟩ := ha [] false 0 rest
  rw [hloop]
  exact Run.loop_reported hin ⟨rfl, rfl⟩

end SNet.Http.Parser
