import SNet.Http.ParserHeaders
import SNet.Http.ParserReading
import SNet.Http.RequestCodec

/-!
# Reading headers

The parser reads the headers of a request line by line (`LineStart.lines`). The callback of a value
that is empty is made with the first byte of the next line.
-/

namespace SNet.Http.Parser

open Codec (ResponseCallback)

variable {h h' h'' : Fields} {r : Round} {o : OpenString} {method : Method} {length : Option Nat}
  {n : Nat} {c : UInt8} {bs bs' name tail value text : List UInt8}
  {pending pending' pending'' : List ResponseCallback} {cbs cbs' : List Callback}

/-- What is known of a request inside of its head: its method, and how long the body is if a header
has said so. -/
structure Fields.Knows (h : Fields) (method : Method) (length : Option Nat) : Prop where
  ok : h.httpErrno = .ok
  type : h.type = .request
  method : h.method = method
  strict : h.lenientHttpHeaders = false
  flags : h.flags.SameBody { contentlength := length.isSome }
  contentLength : h.contentLength = length.getD ullongMax

/-- It stays known while the parser goes on in the head. -/
theorem Fields.Knows.move {s : State} {hs : HeaderState} {i k : Nat} {f : Flags}
    (hk : h.Knows method length) (hf : f.SameBody h.flags) :
    { h with state := s, headerState := hs, index := i, nread := k, flags := f }.Knows method
      length :=
  ⟨hk.ok, hk.type, hk.method, hk.strict, hf.trans hk.flags, hk.contentLength⟩

/-! ## The cases of the head -/

namespace Round

theorem byte_headerFieldStart (hs : r.fields.state = .headerFieldStart) :
    r.byte c = r.headerFieldStart c := by
  simp only [byte, hs]

theorem byte_headerValueDiscardWs (hs : r.fields.state = .headerValueDiscardWs) :
    r.byte c = r.headerValueDiscardWs c := by
  simp only [byte, hs]

theorem byte_headerValueLws (hs : r.fields.state = .headerValueLws) :
    r.byte c = r.headerValueLws c := by
  simp only [byte, hs]

theorem byte_headerValueDiscardLws (hs : r.fields.state = .headerValueDiscardLws) :
    r.byte c = r.headerValueDiscardLws c := by
  simp only [byte, hs]

theorem byte_headersAlmostDone (hs : r.fields.state = .headersAlmostDone) :
    r.byte c = r.headersAlmostDone c := by
  simp only [byte, hs]

end Round

/-! ## The start of a line -/

/-- The parser in front of a line, and what it will call back with the first byte of it. -/
inductive LineStart (h : Fields) : List ResponseCallback → Prop
  | first : h.state = .headerFieldStart → LineStart h []
  | behindValue : h.state = .headerValueLws → h.headerState ≠ .transferEncodingChunked →
    LineStart h []
  | behindNothing : h.state = .headerValueDiscardLws → h.headerState ≠ .contentLength →
    h.headerState ≠ .transferEncodingChunked → LineStart h [.other (.headerValue [])]

theorem Round.finishHeader_eq (hchunked : r.fields.headerState ≠ .transferEncodingChunked) :
    ∃ f : Flags, f.SameBody r.fields.flags ∧
      r.finishHeader = { r with fields := { r.fields with flags := f } } := by
  unfold finishHeader
  split
  case h_3 h => exact absurd h hchunked
  case h_5 => exact ⟨r.fields.flags, .refl _, rfl⟩
  all_goals
    refine ⟨_, ?_, rfl⟩
    exact ⟨rfl, rfl, rfl, rfl⟩

/-- The first byte of a line is looked at in `s_header_field_start`. -/
theorem LineStart.round (hl : LineStart h pending) (hc : ¬ (c = chr ' ' ∨ c = 9))
    (hn : h.nread < maxHeaderSize) :
    ∃ r : Round, ∃ f : Flags, (∀ rest, h.round c rest = (r.headerFieldStart c, 0)) ∧
      f.SameBody h.flags ∧
      r.fields = { h with state := .headerFieldStart, nread := h.nread + 1, flags := f } ∧
      ∀ g last es o cs, tells g [] last none es = some (o, cs) →
        tells g [] last none (r.events ++ es) = some (o, pending ++ cs) := by
  have hround {s : State} (hs : h.state = s) (hp : s.takesByte) (rest : List UInt8) :=
    h.round_byte c rest (hs ▸ hp) hn
  cases hl with
  | first hs =>
    refine ⟨⟨{ h with nread := h.nread + 1 }, [], false⟩, h.flags, fun rest => ?_, .refl _, ?_, ?_⟩
    · rw [hround hs rfl, Round.byte_headerFieldStart hs]
    · rw [← hs]
    · intro g last es o cs hes
      exact hes
  | behindValue hs hchunked =>
    obtain ⟨f, hf, hfinish⟩ :=
      Round.finishHeader_eq (r := ⟨{ h with nread := h.nread + 1 }, [], false⟩) hchunked
    refine ⟨Round.enter ⟨{ h with nread := h.nread + 1, flags := f }, [], false⟩ .headerFieldStart, f,
      fun rest => ?_, hf, rfl, ?_⟩
    · rw [hround hs rfl, Round.byte_headerValueLws hs]
      unfold Round.headerValueLws
      rw [if_neg hc, hfinish]
    · intro g last es o cs hes
      exact hes
  | behindNothing hs hlength hchunked =>
    obtain ⟨f, hf, hfinish⟩ :=
      Round.finishHeader_eq (r := ⟨{ h with nread := h.nread + 1 }, [], false⟩) hchunked
    refine ⟨(((⟨{ h with nread := h.nread + 1, flags := f }, [], false⟩ : Round).setMark
      .headerValue).enter .headerFieldStart).callDataNoadvance .headerValue, f, fun rest => ?_, hf,
      rfl, ?_⟩
    · rw [hround hs rfl, Round.byte_headerValueDiscardLws hs]
      unfold Round.headerValueDiscardLws
      rw [if_neg hc, if_neg hlength, hfinish]
    · intro g last es o cs hes
      show ((tells g [] last none es).map _).map _ = _
      rw [hes]
      rfl

theorem isToken_ne (hc : isToken c) : ¬ (c = chr ' ' ∨ c = 9) ∧ c ≠ cr ∧ c ≠ lf := by
  refine ⟨?_, ?_, ?_⟩
  · rintro (rfl | rfl) <;> exact absurd hc (by decide)
  · rintro rfl
    exact absurd hc (by decide)
  · rintro rfl
    exact absurd hc (by decide)

/-- The first byte of a name. -/
theorem LineStart.token (hl : LineStart h pending) (hk : h.Knows method length) (hc : isToken c)
    (hn : h.nread < maxHeaderSize) :
    ∃ h', Consumes h none [c] pending h' (some (.headerField, [c])) ∧ h'.Knows method length ∧
      h'.state = .headerField ∧ h'.headerState = .first (Parser.token c) ∧ h'.index = 0 ∧
      h'.nread = h.nread + 1 := by
  obtain ⟨hblank, hcr, hlf⟩ := isToken_ne hc
  obtain ⟨⟨fields, events, fault⟩, f, hround, hf, rfl, htells⟩ := hl.round hblank hn
  have hout (r : Round) : r.headerFieldStart c =
      .next ((((r.setMark .headerField).setIndex 0).enter .headerField).setHeaderState
        (.first (Parser.token c))) := by
    unfold Round.headerFieldStart
    rw [if_neg hcr, if_neg hlf]
    exact if_neg (of_decide_eq_true hc)
  rw [hout] at hround
  have hbyte := Consumes.byte hround
    (htells _ _ [.mark .headerField] (some (.headerField, [])) [] rfl)
  rw [List.append_nil] at hbyte
  exact ⟨_, hbyte, hk.move hf, rfl, rfl, rfl, rfl⟩

/-- The end of a head. -/
theorem LineStart.last (hl : LineStart h pending) (hk : h.Knows method length)
    (hn : h.nread < maxHeaderSize) :
    ∃ h', Consumes h none [cr] pending h' none ∧ h'.Knows method length ∧
      h'.state = .headersAlmostDone ∧ h'.nread = h.nread + 1 := by
  obtain ⟨⟨fields, events, fault⟩, f, hround, hf, rfl, htells⟩ :=
    hl.round (show ¬ (cr = chr ' ' ∨ cr = 9) by decide) hn
  have hout (r : Round) : r.headerFieldStart cr = .next (r.enter .headersAlmostDone) := if_pos rfl
  rw [hout] at hround
  have hpending (g : Fields) : tells g [] [cr] none events = some (none, pending) := by
    have := htells g [cr] [] none [] rfl
    rwa [List.append_nil, List.append_nil] at this
  exact ⟨_, Consumes.byte hround (hpending _), hk.move hf, rfl, rfl⟩

/-! ## A name and a value -/

/-- What follows the first byte of a name. -/
theorem Consumes.headerField (bs : List UInt8) (hs : h.state = .headerField)
    (htail : ∀ c ∈ tail, isToken c) (hn : h.nread + tail.length + 1 ≤ maxHeaderSize) :
    ∃ n, Consumes h (some (.headerField, bs)) (tail ++ [chr ':'])
      [.other (.headerField (bs ++ tail))]
      { h with
        state := .headerValueDiscardWs
        headerState := (tail.foldl Matcher.fieldChar ⟨h.headerState, h.index, false⟩).headerState
        index := n
        nread := h.nread + tail.length + 1 } none := by
  have hmod : (h.nread + 1 + tail.length) % 2 ^ 32 = h.nread + tail.length + 1 := by
    rw [Nat.add_right_comm, Nat.mod_eq_of_lt (Nat.lt_of_le_of_lt hn (by decide))]
  have htake (rest : List UInt8) : (tail ++ chr ':' :: rest).takeWhile isToken = tail := by
    rw [List.takeWhile_append_of_pos htail, List.takeWhile_cons_of_neg (by decide), List.append_nil]
  have hround (c : UInt8) (rest : List UInt8) : h.round c rest =
      Round.headerField ⟨{ h with nread := h.nread + 1 }, [], false⟩ (c :: rest) := by
    rw [h.round_eq c rest (by rw [hs]; rfl) (by omega)]
    simp only [Round.switch, hs]
  generalize hm : tail.foldl Matcher.fieldChar ⟨h.headerState, h.index, false⟩ = m
  obtain ⟨r, hr, hevents, hout⟩ : ∃ r : Round,
      r.fields = { h with
        state := .headerValueDiscardWs, headerState := m.headerState, index := m.index
        nread := h.nread + tail.length + 1 } ∧
      r.events = [.data .headerField false true] ∧
      ∀ rest, Round.headerField ⟨{ h with nread := h.nread + 1 }, [], false⟩
        (tail ++ chr ':' :: rest) = (.next r, tail.length) := by
    refine ⟨⟨_, _, !(!m.fault)⟩, rfl, rfl, fun rest => ?_⟩
    unfold Round.headerField
    rw [fieldLoop_zero, htake, hm]
    dsimp only
    rw [List.drop_left]
    dsimp only
    unfold Round.count
    dsimp only [Round.setNread, Round.check, Round.setIndex, Round.setHeaderState]
    rw [hmod, if_neg (by omega), if_pos rfl]
    rfl
  have htext := Consumes.text (o := some (.headerField, bs)) hround hout
    (by rw [hevents]; exact tells_data)
  rw [hr] at htext
  exact ⟨m.index, htext⟩

/-- The blanks in front of a value. -/
theorem Consumes.blanks (bs : List UInt8) (hs : h.state = .headerValueDiscardWs)
    (hbs : ∀ b ∈ bs, isBlank b)
    (hn : h.nread + bs.length ≤ maxHeaderSize) :
    Consumes h none bs [] { h with nread := h.nread + bs.length } none := by
  induction bs generalizing h with
  | nil => exact Consumes.nil
  | cons b bs ih =>
    obtain ⟨hb, hbs⟩ := List.forall_mem_cons.1 hbs
    rw [List.length_cons] at hn
    have hblank : b = chr ' ' ∨ b = 9 := by
      simp only [isBlank, Bool.or_eq_true, decide_eq_true_eq] at hb
      exact hb
    have hround (rest : List UInt8) :
        h.round b rest = (.next ⟨{ h with nread := h.nread + 1 }, [], false⟩, 0) := by
      rw [h.round_byte b rest (by rw [hs]; rfl) (by omega),
        Round.byte_headerValueDiscardWs hs]
      exact congrArg (·, 0) (if_pos hblank)
    have htail := ih (h := { h with nread := h.nread + 1 }) hs hbs (by dsimp only; omega)
    rw [Nat.add_assoc, Nat.add_comm 1] at htail
    exact (Consumes.byte (o := none) hround rfl).trans htail

/-- A value behind its first byte. -/
theorem Consumes.headerValue {v' : Value} (bs : List UInt8) (hs : h.state = .headerValue)
    (hpos : 0 < h.nread) (hn : h.nread + text.length + 1 ≤ maxHeaderSize)
    (hplain : valuePlain h.lenientHttpHeaders
      ⟨⟨h.headerState, h.index, false⟩, h.flags, h.contentLength⟩ (text ++ [cr]) =
        ((v', .eol cr), text.length)) :
    ∃ n, Consumes h (some (.headerValue, bs)) (text ++ [cr]) [.other (.headerValue (bs ++ text))]
      { h with
        state := .headerAlmostDone, headerState := v'.headerState, index := n, flags := v'.flags
        contentLength := v'.contentLength, nread := h.nread + text.length + 1 } none := by
  have hmod : (h.nread + 1 + text.length) % 2 ^ 32 = h.nread + text.length + 1 := by
    rw [Nat.add_right_comm, Nat.mod_eq_of_lt (Nat.lt_of_le_of_lt hn (by decide))]
  have hround (c : UInt8) (rest : List UInt8) : h.round c rest =
      Round.headerValue ⟨{ h with nread := h.nread + 1 }, [], false⟩ (c :: rest) := by
    rw [h.round_eq c rest (by rw [hs]; rfl) (by omega)]
    simp only [Round.switch, hs]
  obtain ⟨r, hr, hevents, hout⟩ : ∃ r : Round,
      r.fields = { h with
        state := .headerAlmostDone, headerState := v'.headerState, index := v'.index
        flags := v'.flags, contentLength := v'.contentLength
        nread := h.nread + text.length + 1 } ∧
      r.events = [.data .headerValue false true] ∧
      ∀ rest, Round.headerValue ⟨{ h with nread := h.nread + 1 }, [], false⟩ (text ++ cr :: rest) =
        (.next r, text.length) := by
    refine ⟨⟨_, _, !(!v'.fault)⟩, rfl, rfl, fun rest => ?_⟩
    unfold Round.headerValue
    dsimp only
    rw [valueLoop_of_plain hplain (by omega)]
    unfold Round.valueOut
    dsimp only
    rw [if_pos rfl]
    unfold Round.count
    dsimp only [Round.setNread, Round.callData, Round.event, Round.setHeaderState, Round.enter,
      Round.setValue, Round.check, Round.setIndex, Round.setContentLength, Round.setFlags]
    rw [hmod, if_neg (by omega)]
    rfl
  have htext := Consumes.text (o := some (.headerValue, bs)) hround hout
    (by rw [hevents]; exact tells_data)
  rw [hr] at htext
  exact ⟨v'.index, htext⟩

/-! ### The first byte of a value -/

/-- A value that says nothing about the body. -/
theorem Round.headerValueStart_free (c : UInt8) (hr : r.fields.headerState.ofField)
    (hlength : r.fields.headerState ≠ .contentLength)
    (hencoding : r.fields.headerState ≠ .transferEncoding) :
    ∃ s : HeaderState, ∃ f : Flags, s.free ∧ f.SameBody r.fields.flags ∧
      r.headerValueStart c = .next
        ⟨{ r.fields with state := .headerValue, headerState := s, index := 0, flags := f },
          r.events ++ [.mark .headerValue], r.fault⟩ := by
  unfold headerValueStart
  dsimp only
  split
  case h_1 =>
    exact ⟨.general, { r.fields.flags with upgrade := true }, trivial, ⟨rfl, rfl, rfl, rfl⟩, rfl⟩
  case h_2 hs => exact absurd hs hencoding
  case h_3 hs => exact absurd hs hlength
  case h_4 hs =>
    have hs : r.fields.headerState = .contentLengthWs := hs
    exact absurd hr (by rw [hs]; exact id)
  case h_5 => exact ⟨_, r.fields.flags, by split_ifs <;> trivial, .refl _, rfl⟩
  case h_6 hs =>
    have hs : r.fields.headerState = .matchingConnectionTokenStart := hs
    exact absurd hr (by rw [hs]; exact id)
  case h_7 => exact ⟨.general, r.fields.flags, trivial, .refl _, rfl⟩

/-- A digit of a length. -/
theorem Round.headerValueStart_digit (hs : r.fields.headerState = .contentLength) (hc : isNumber c)
    (hflag : r.fields.flags.contentlength = false) :
    r.headerValueStart c = .next
      ⟨{ r.fields with
          state := .headerValue, headerState := .contentLengthNum, index := 0
          flags := { r.fields.flags with contentlength := true }
          contentLength := (c - chr '0').toNat }, r.events ++ [.mark .headerValue], r.fault⟩ := by
  unfold headerValueStart
  dsimp only [setIndex, enter, setMark, event]
  rw [hs]
  dsimp only
  rw [if_neg (by simp [hc]), if_neg (by simp [hflag])]
  rfl

/-- A value, behind the blanks. -/
theorem Consumes.fieldValue {s : HeaderState} {f : Flags} {v' : Value}
    (hs : h.state = .headerValueDiscardWs) (hblank : ¬ isBlank c)
    (hc : isText false c)
    (hstart : Round.headerValueStart ⟨{ h with nread := h.nread + 1 }, [], false⟩ c = .next
      ⟨{ h with
          state := .headerValue, headerState := s, index := 0, flags := f, contentLength := n
          nread := h.nread + 1 }, [.mark .headerValue], false⟩)
    (hplain : valuePlain h.lenientHttpHeaders ⟨⟨s, 0, false⟩, f, n⟩ (text ++ [cr]) =
      ((v', .eol cr), text.length))
    (hn : h.nread + text.length + 2 ≤ maxHeaderSize) :
    ∃ i, Consumes h none (c :: (text ++ [cr])) [.other (.headerValue (c :: text))]
      { h with
        state := .headerAlmostDone, headerState := v'.headerState, index := i, flags := v'.flags
        contentLength := v'.contentLength, nread := h.nread + text.length + 2 } none := by
  simp only [isText, Bool.and_eq_true, decide_eq_true_eq] at hc
  have hblank : ¬ (c = chr ' ' ∨ c = 9) := by
    simp only [isBlank, Bool.or_eq_true, decide_eq_true_eq] at hblank
    exact hblank
  have hround (rest : List UInt8) : h.round c rest = (.next ⟨{ h with
      state := .headerValue, headerState := s, index := 0, flags := f, contentLength := n
      nread := h.nread + 1 }, [.mark .headerValue], false⟩, 0) := by
    rw [h.round_byte c rest (by rw [hs]; rfl) (by omega),
      Round.byte_headerValueDiscardWs hs]
    unfold Round.headerValueDiscardWs
    rw [if_neg hblank, if_neg hc.1.1, if_neg hc.1.2, hstart]
  obtain ⟨i, hrest⟩ := Consumes.headerValue [c] (h := { h with
      state := .headerValue, headerState := s, index := 0, flags := f, contentLength := n
      nread := h.nread + 1 }) rfl (Nat.succ_pos _) (by dsimp only; omega) hplain
  have hnread : h.nread + 1 + text.length + 1 = h.nread + text.length + 2 := by omega
  dsimp only at hrest
  rw [hnread] at hrest
  exact ⟨i, (Consumes.byte (o := none) hround rfl).trans hrest⟩

/-- A value of a header in whose name nothing about the body was seen. -/
theorem Consumes.freeValue (hs : h.state = .headerValueDiscardWs) (hk : h.Knows method length)
    (hname : h.headerState.ofField) (hlength : h.headerState ≠ .contentLength)
    (hencoding : h.headerState ≠ .transferEncoding) (hblank : ¬ isBlank c)
    (htext : ∀ b ∈ c :: text, isText false b)
    (hn : h.nread + text.length + 2 ≤ maxHeaderSize) :
    ∃ h', Consumes h none (c :: (text ++ [cr])) [.other (.headerValue (c :: text))] h' none ∧
      h'.Knows method length ∧ h'.state = .headerAlmostDone ∧
      h'.headerState ≠ .transferEncodingChunked ∧ h'.nread = h.nread + text.length + 2 := by
  obtain ⟨hc, htext⟩ := List.forall_mem_cons.1 htext
  obtain ⟨s, f, hfree, hf, hstart⟩ := Round.headerValueStart_free
    (r := ⟨{ h with nread := h.nread + 1 }, [], false⟩) c hname hlength hencoding
  obtain ⟨v', hplain, hv'⟩ := valuePlain_free h.lenientHttpHeaders
    (v := ⟨⟨s, 0, false⟩, f, h.contentLength⟩) hfree fun b hb => isText_of_strict (htext b hb)
  obtain ⟨i, hvalue⟩ := Consumes.fieldValue hs hblank hc hstart hplain hn
  refine ⟨_, hvalue, ?_, rfl, ?_, rfl⟩
  · exact ⟨hk.ok, hk.type, hk.method, hk.strict, (hv'.flags.trans hf).trans hk.flags,
      hv'.contentLength.trans hk.contentLength⟩
  · rintro hchunked
    have hfree := hv'.state
    rw [show v'.headerState = _ from hchunked] at hfree
    exact hfree

/-- The length of a body. -/
theorem Consumes.lengthValue (hs : h.state = .headerValueDiscardWs) (hk : h.Knows method none)
    (hname : h.headerState = .contentLength) (hfit : n + 10 ≤ ullongMax)
    (hn : h.nread + (ascii (toString n)).length + 1 ≤ maxHeaderSize) :
    ∃ h', Consumes h none (ascii (toString n) ++ [cr])
        [.other (.headerValue (ascii (toString n)))] h' none ∧
      h'.Knows method (some n) ∧ h'.state = .headerAlmostDone ∧
      h'.headerState ≠ .transferEncodingChunked ∧
      h'.nread = h.nread + (ascii (toString n)).length + 1 := by
  have hdigits := Text.isDigit_toString n
  have hdecimal := Text.decimal_toString n
  unfold Text.decimal at hdecimal
  obtain ⟨d, ds, hds⟩ := List.exists_cons_of_ne_nil (Text.toString_ne_nil n)
  rw [hds] at hdigits hdecimal hn ⊢
  rw [List.foldl_cons, Nat.mul_zero, Nat.zero_add] at hdecimal
  rw [List.length_cons] at hn ⊢
  obtain ⟨hd, htail⟩ := List.forall_mem_cons.1 hdigits
  obtain ⟨htext, hblank, -, hnumber, hvalue⟩ := digit_table d hd
  have hflag : h.flags.contentlength = false := hk.flags.contentlength
  have hstart := Round.headerValueStart_digit
    (r := ⟨{ h with nread := h.nread + 1 }, [], false⟩) hname hnumber hflag
  have hplain := valuePlain_digits h.lenientHttpHeaders
    (v := ⟨⟨.contentLengthNum, 0, false⟩, { h.flags with contentlength := true },
      (d - chr '0').toNat⟩) rfl htail (by dsimp only; rw [hvalue]; omega)
  obtain ⟨i, hconsumes⟩ := Consumes.fieldValue hs hblank htext hstart hplain (by omega)
  dsimp only at hconsumes
  have hlength : ds.foldl (fun n d => 10 * n + (d.toNat - 48)) (d - chr '0').toNat = n := by
    rw [hvalue, hdecimal]
  rw [hlength] at hconsumes
  exact ⟨_, hconsumes, ⟨hk.ok, hk.type, hk.method, hk.strict,
    ⟨hk.flags.chunked, hk.flags.trailing, hk.flags.skipbody, rfl⟩, rfl⟩, rfl, by simp, rfl⟩

/-! ## Lines -/

/-- The parser comes from one start of a line to another one, and has called back what belongs to the
lines but for the end of it. -/
structure ReadsLines (h : Fields) (pending : List ResponseCallback) (bs : List UInt8)
    (cbs : List Callback) (h' : Fields) (pending' : List ResponseCallback) : Prop where
  reads : ∃ cs, Consumes h none bs cs h' none ∧ pending ++ cbs.map .other = cs ++ pending'
  start : LineStart h' pending'
  nread : h'.nread = h.nread + bs.length

theorem ReadsLines.nil (hl : LineStart h pending) : ReadsLines h pending [] [] h pending :=
  ⟨⟨[], Consumes.nil, by simp⟩, hl, rfl⟩

theorem ReadsLines.trans (ha : ReadsLines h pending bs cbs h' pending')
    (hb : ReadsLines h' pending' bs' cbs' h'' pending'') :
    ReadsLines h pending (bs ++ bs') (cbs ++ cbs') h'' pending'' := by
  obtain ⟨cs, hcs, heq⟩ := ha.reads
  obtain ⟨cs', hcs', heq'⟩ := hb.reads
  refine ⟨⟨cs ++ cs', hcs.trans hcs', ?_⟩, hb.start, ?_⟩
  · rw [List.map_append, ← List.append_assoc, heq, List.append_assoc, heq', List.append_assoc]
  · rw [hb.nread, ha.nread, List.length_append, Nat.add_assoc]

/-- The name of a header with the blanks in front of its value. -/
theorem LineStart.field (hl : LineStart h pending) (hk : h.Knows method length) (hname : IsToken name)
    (hbs : ∀ b ∈ bs, isBlank b) (hn : h.nread + name.length + 1 + bs.length ≤ maxHeaderSize) :
    ∃ h', Consumes h none (name ++ chr ':' :: bs) (pending ++ [.other (.headerField name)]) h' none ∧
      h'.Knows method length ∧ h'.state = .headerValueDiscardWs ∧ h'.headerState = nameState name ∧
      h'.nread = h.nread + name.length + 1 + bs.length := by
  obtain ⟨c, tail, rfl⟩ := List.exists_cons_of_ne_nil hname.1
  have htoken : ∀ b ∈ c :: tail, isToken b := fun b hb => isToken_of (hname.2 b hb)
  obtain ⟨hc, htail⟩ := List.forall_mem_cons.1 htoken
  rw [List.length_cons] at hn ⊢
  obtain ⟨h₁, hfirst, hk₁, hs₁, hstate₁, hindex₁, hn₁⟩ := hl.token hk hc (by omega)
  obtain ⟨i, hrest⟩ := Consumes.headerField [c] hs₁ htail (by omega)
  rw [hstate₁, hindex₁] at hrest
  have hblanks := Consumes.blanks bs (h := { h₁ with
    state := .headerValueDiscardWs, headerState := nameState (c :: tail), index := i
    nread := h₁.nread + tail.length + 1 }) rfl hbs (by dsimp only; omega)
  have hall := hfirst.trans (hrest.trans hblanks)
  simp only [List.append_assoc, List.singleton_append, List.append_nil] at hall
  exact ⟨_, hall, hk₁.move (.refl _), rfl, rfl, by dsimp only; omega⟩

/-- The end of a value. -/
theorem Consumes.valueEnd (hs : h.state = .headerAlmostDone) (hn : h.nread < maxHeaderSize) :
    Consumes h none [lf] [] { h with state := .headerValueLws, nread := h.nread + 1 } none := by
  have hround (rest : List UInt8) : h.round lf rest =
      (.next ⟨{ h with state := .headerValueLws, nread := h.nread + 1 }, [], false⟩, 0) := by
    rw [h.round_byte lf rest (by rw [hs]; rfl) hn]
    simp only [Round.byte, hs]
    rfl
  exact Consumes.byte (o := none) hround rfl

/-- The end of a line without a value. -/
theorem Consumes.noValue (hs : h.state = .headerValueDiscardWs) (hn : h.nread + 2 ≤ maxHeaderSize) :
    Consumes h none [cr, lf] []
      { h with state := .headerValueDiscardLws, nread := h.nread + 2 } none := by
  have hround (rest : List UInt8) : h.round cr rest = (.next
      ⟨{ h with state := .headerValueDiscardWsAlmostDone, nread := h.nread + 1 }, [], false⟩, 0) := by
    rw [h.round_byte cr rest (by rw [hs]; rfl) (by omega),
      Round.byte_headerValueDiscardWs hs]
    rfl
  have hquiet : Consumes { h with state := .headerValueDiscardWsAlmostDone, nread := h.nread + 1 } none
      [lf] [] { h with state := .headerValueDiscardLws, nread := h.nread + 2 } none :=
    (Consumes.quietly [lf] rfl hn).1
  exact (Consumes.byte (o := none) hround rfl).trans hquiet

theorem isText_of_isHeaderValue (hvalue : IsHeaderValue value) : ∀ b ∈ value, isText false b := by
  intro b hb
  obtain rfl | ⟨hle, hne⟩ := hvalue b hb
  · decide
  · have hcr : b ≠ cr := fun h => absurd (h ▸ hle) (by decide)
    have hlf : b ≠ lf := fun h => absurd (h ▸ hle) (by decide)
    have hlt : 31 < b := Std.lt_of_lt_of_le (by decide) hle
    simp [isText, isValueChar, isHeaderChar, hcr, hlf, hlt, hne]

/-- **A line** of a header. -/
theorem LineStart.line (name value : List UInt8) (hl : LineStart h pending)
    (hk : h.Knows method length) (hname : IsToken name) (hvalue : IsHeaderValue value)
    (hencoding : ¬ IsTransferEncoding name)
    (hlength : IsContentLength name → value = ascii (toString n) ∧ length = none)
    (hfit : n + 10 ≤ ullongMax)
    (hn : h.nread + (headerLine (name, value)).length ≤ maxHeaderSize) :
    ∃ h' pending', ReadsLines h pending (headerLine (name, value))
        (RequestMessage.headerCallbacks (name, value)) h' pending' ∧
      h'.Knows method (if IsContentLength name then some n else length) := by
  have hline : headerLine (name, value) =
      (name ++ chr ':' :: chr ' ' :: value.takeWhile isBlank) ++
        (value.dropWhile isBlank ++ [cr] ++ [lf]) := by
    rw [headerLine]
    conv_lhs => rw [← List.takeWhile_append_dropWhile (p := isBlank) (l := value)]
    simp only [List.append_assoc, List.cons_append]
    rfl
  have hblanks : ∀ b ∈ chr ' ' :: value.takeWhile isBlank, isBlank b :=
    List.forall_mem_cons.2 ⟨rfl, fun b hb => List.mem_takeWhile_imp hb⟩
  have htext : ∀ b ∈ value.dropWhile isBlank, isText false b := fun b hb =>
    isText_of_isHeaderValue hvalue b ((List.dropWhile_sublist _).mem hb)
  rw [hline] at hn ⊢
  simp only [List.length_append, List.length_cons, List.length_nil] at hn
  obtain ⟨h₁, hfield, hk₁, hs₁, hname₁, hn₁⟩ :=
    hl.field hk hname hblanks (by simp only [List.length_cons]; omega)
  simp only [List.length_cons] at hn₁
  by_cases hcl : IsContentLength name
  · obtain ⟨rfl, rfl⟩ := hlength hcl
    have hdrop : (ascii (toString n)).dropWhile isBlank = ascii (toString n) :=
      Codec.dropWhile_isBlank Codec.isHeaderValue_toString.2
    rw [hdrop] at hn ⊢
    obtain ⟨h₂, hval, hk₂, hs₂, hchunked, hn₂⟩ := Consumes.lengthValue hs₁ hk₁
      (hname₁.trans (nameState_contentLength hname hcl)) hfit (by omega)
    have hend := Consumes.valueEnd hs₂ (by omega)
    refine ⟨_, [], ⟨⟨_, hfield.trans (hval.trans hend), ?_⟩, .behindValue rfl hchunked, ?_⟩, ?_⟩
    · unfold RequestMessage.headerCallbacks
      dsimp only
      rw [hdrop]
      simp
    · simp only [List.length_append, List.length_cons, List.length_nil]
      omega
    · rw [if_pos hcl]
      exact hk₂.move (.refl _)
  · have hofField : h₁.headerState.ofField := hname₁ ▸ nameState_ofField name
    have hlength₁ : h₁.headerState ≠ .contentLength := fun h =>
      hcl (isContentLength_of hname (hname₁ ▸ h))
    have hencoding₁ : h₁.headerState ≠ .transferEncoding := fun h =>
      hencoding (isTransferEncoding_of hname (hname₁ ▸ h))
    cases hv : value.dropWhile isBlank with
    | nil =>
      rw [hv] at hn
      simp only [List.length_nil] at hn
      have hend := Consumes.noValue hs₁ (by omega)
      have hchunked : h₁.headerState ≠ .transferEncodingChunked := fun h =>
        absurd hofField (by rw [h]; exact id)
      refine ⟨_, _, ⟨⟨_, hfield.trans hend, ?_⟩, .behindNothing rfl hlength₁ hchunked, ?_⟩, ?_⟩
      · simp [RequestMessage.headerCallbacks, hv]
      · simp only [List.length_append, List.length_cons, List.length_nil]
        omega
      · rw [if_neg hcl]
        exact hk₁.move (.refl _)
    | cons c text =>
      have hblank : ¬ isBlank c := by
        have := List.head?_dropWhile_not isBlank value
        rw [hv] at this
        simpa using this
      rw [hv] at hn htext
      rw [List.length_cons] at hn
      obtain ⟨h₂, hval, hk₂, hs₂, hchunked, hn₂⟩ :=
        Consumes.freeValue hs₁ hk₁ hofField hlength₁ hencoding₁ hblank htext (by omega)
      have hend := Consumes.valueEnd hs₂ (by omega)
      refine ⟨_, [], ⟨⟨_, hfield.trans (hval.trans hend), ?_⟩, .behindValue rfl hchunked, ?_⟩, ?_⟩
      · simp [RequestMessage.headerCallbacks, hv]
      · simp only [List.length_append, List.length_cons, List.length_nil]
        omega
      · rw [if_neg hcl]
        exact hk₂.move (.refl _)

/-- **The headers** of a head; at most one of them is the length of the body. -/
theorem LineStart.lines {hs : List (List UInt8 × List UInt8)} (hl : LineStart h pending)
    (hk : h.Knows method length) (hnames : ∀ x ∈ hs, IsToken x.1)
    (hvalues : ∀ x ∈ hs, IsHeaderValue x.2) (hencoding : ∀ x ∈ hs, ¬ IsTransferEncoding x.1)
    (hlength : ∀ x ∈ hs, IsContentLength x.1 → x.2 = ascii (toString n) ∧ length = none)
    (hunique : hs.Pairwise fun x y => ¬ (IsContentLength x.1 ∧ IsContentLength y.1))
    (hfit : n + 10 ≤ ullongMax)
    (hn : h.nread + (hs.flatMap headerLine).length ≤ maxHeaderSize) :
    ∃ h' pending', ReadsLines h pending (hs.flatMap headerLine)
        (hs.flatMap RequestMessage.headerCallbacks) h' pending' ∧
      h'.Knows method (if ∃ x ∈ hs, IsContentLength x.1 then some n else length) := by
  induction hs generalizing h pending length with
  | nil =>
    rw [if_neg (by simp)]
    exact ⟨h, pending, .nil hl, hk⟩
  | cons x hs ih =>
    obtain ⟨name, value⟩ := x
    obtain ⟨hname, hnames⟩ := List.forall_mem_cons.1 hnames
    obtain ⟨hvalue, hvalues⟩ := List.forall_mem_cons.1 hvalues
    obtain ⟨hencoding₁, hencoding⟩ := List.forall_mem_cons.1 hencoding
    obtain ⟨hlength₁, hlength⟩ := List.forall_mem_cons.1 hlength
    obtain ⟨hunique₁, hunique⟩ := List.pairwise_cons.1 hunique
    rw [List.flatMap_cons, List.length_append] at hn
    obtain ⟨h₁, pending₁, hline, hk₁⟩ :=
      hl.line name value hk hname hvalue hencoding₁ hlength₁ hfit (by omega)
    have hnread := hline.nread
    have hlength' (y) (hy : y ∈ hs) (hcl : IsContentLength y.1) :
        y.2 = ascii (toString n) ∧ (if IsContentLength name then some n else length) = none := by
      rw [if_neg fun h => hunique₁ y hy ⟨h, hcl⟩]
      exact hlength y hy hcl
    obtain ⟨h', pending', hlines, hk'⟩ :=
      ih hline.start hk₁ hnames hvalues hencoding hlength' hunique (by omega)
    refine ⟨h', pending', hline.trans hlines, ?_⟩
    have hif : (if ∃ x ∈ (name, value) :: hs, IsContentLength x.1 then some n else length) =
        if ∃ x ∈ hs, IsContentLength x.1 then some n
        else if IsContentLength name then some n else length := by
      simp only [List.exists_mem_cons_iff]
      by_cases hcl : IsContentLength name
      · rw [if_pos (.inl hcl), if_pos hcl, ite_self]
      · simp only [hcl, false_or, if_false]
    rwa [hif]

end SNet.Http.Parser
