import SNet.Http.ParserDocumented
import SNet.Http.ParserFirstLine
import SNet.Http.ParserLines
import SNet.Http.RequestCodec

/-!
# Reading requests

The parser of the decoder reads a request as what it is (`requestParser_reads`): its first line, its
headers line by line, and its body in one piece.
-/

namespace SNet.Http.Parser

open Codec (ResponseCallback)

variable {h h' : Fields} {r : Round} {method : Method} {length : Option Nat} {n : Nat}
  {m : RequestMessage}

/-! ## The end of a request -/

/-- A head whose message has no body is the whole message. -/
theorem Round.headersDone_whole (hk : r.fields.Knows method length) (hlength : length.getD 0 = 0) :
    ∃ r' : Round, (r.headersDone lf = .next r' ∨ r.headersDone lf = .done r') ∧
      r'.fields.httpErrno = .ok ∧ r'.events = r.events ++ [.notify .messageComplete true] := by
  have hchunked : r.fields.flags.chunked = false := hk.flags.chunked
  have hskip : r.fields.flags.skipbody = false := hk.flags.skipbody
  have hcl : r.fields.contentLength = 0 ∨ r.fields.contentLength = ullongMax := by
    rw [hk.contentLength]
    cases length with
    | none => exact .inr rfl
    | some n => exact .inl hlength
  have heof : (r.setNread 0).fields.needsEof = false := if_pos hk.type
  refine ⟨((r.setNread 0).enter (r.setNread 0).fields.newMessage).notify .messageComplete, ?_, hk.ok,
    rfl⟩
  unfold headersDone
  rw [if_neg (by simp)]
  dsimp only
  split
  · exact .inr rfl
  rw [if_neg (by simp [setNread, hskip]), if_neg (by simp [setNread, hchunked])]
  obtain hzero | hmax := hcl
  · exact .inl (if_pos hzero)
  · rw [if_neg (by simp [setNread, hmax, ullongMax]), if_neg (by simp [setNread, hmax]),
      if_pos (by simp [heof])]
    exact .inl rfl

/-- Behind a head whose message has a body the body is read. -/
theorem Round.headersDone_body (hk : r.fields.Knows method (some n)) (hpos : 0 < n)
    (hlt : n < ullongMax) (hconnect : method ≠ .connect) :
    r.headersDone lf = .next ((r.setNread 0).enter .bodyIdentity) := by
  have hchunked : r.fields.flags.chunked = false := hk.flags.chunked
  have hskip : r.fields.flags.skipbody = false := hk.flags.skipbody
  have hcl : r.fields.contentLength = n := hk.contentLength
  have hmethod : r.fields.method ≠ .connect := hk.method ▸ hconnect
  unfold headersDone
  rw [if_neg (by simp)]
  dsimp only
  rw [if_neg (by simp [setNread, hskip, hcl, hmethod, hpos, hlt.ne]),
    if_neg (by simp [setNread, hskip]), if_neg (by simp [setNread, hchunked]),
    if_neg (by simp [setNread, hcl, hpos.ne']), if_pos (by simp [setNread, hcl, hlt.ne])]

/-- The last byte of a head. -/
theorem Round.headersAlmostDone_eq (hk : r.fields.Knows method length) :
    ∃ u, r.headersAlmostDone lf = (((r.enter .headersDone).setUpgrade u).notifyNoadvance
      (.headersComplete method.number)).headersDone lf := by
  have htrailing : r.fields.flags.trailing = false := hk.flags.trailing
  have hchunked : r.fields.flags.chunked = false := hk.flags.chunked
  unfold headersAlmostDone
  rw [if_neg (by simp), if_neg (by simp [htrailing]), if_neg (by simp [hchunked]), ← hk.method]
  exact ⟨_, rfl⟩

/-- A body that is in the buffer as a whole. -/
theorem Finishes.bodyIdentity {body : List UInt8} (hs : h.state = .bodyIdentity)
    (hok : h.httpErrno = .ok) (hne : body ≠ []) (hlength : h.contentLength = body.length) :
    Finishes h none body [.other (.body body), .other .messageComplete] := by
  obtain ⟨b, rest, rfl⟩ := List.exists_cons_of_ne_nil hne
  have hround : h.round b rest = Round.bodyIdentity ⟨h, [], false⟩ (b :: rest) := by
    unfold Fields.round
    rw [if_neg (by rw [hs]; simp [State.parsingHeader])]
    simp only [Round.switch, hs]
  have hout : ∃ r : Round, (h.round b rest = (.next r, rest.length) ∨
        h.round b rest = (.done r, rest.length)) ∧ r.fields.httpErrno = .ok ∧
      r.events = [.mark .body, .data .body true false, .notify .messageComplete true] := by
    rw [hround]
    unfold Round.bodyIdentity
    dsimp only
    rw [hlength, Nat.min_self, if_pos ?_]
    rotate_left
    · exact Nat.sub_eq_zero_of_le hlength.le
    unfold Round.messageDone
    dsimp only
    split
    · exact ⟨_, .inr rfl, hok, rfl⟩
    · exact ⟨_, .inl rfl, hok, rfl⟩
  obtain ⟨r, hround, hok, hevents⟩ := hout
  have htell : tells r.fields ((b :: rest).take rest.length) (((b :: rest).drop rest.length).take 1)
      none r.events = some (none, [.other (.body (b :: rest)), .other .messageComplete]) := by
    have htake : (b :: rest).take rest.length ++ ((b :: rest).drop rest.length).take 1 =
        b :: rest := by
      rw [← List.take_add]
      exact List.take_of_length_le (le_refl (b :: rest).length)
    rw [hevents]
    conv_rhs => rw [← htake]
    rfl
  obtain hround | hround := hround
  · exact Finishes.next hround hok htell
  · exact Finishes.done hround hok htell

/-- A request behind the carriage return in front of its body. -/
theorem Finishes.body {body : List UInt8} (hs : h.state = .headersAlmostDone)
    (hk : h.Knows method length) (hn : h.nread < maxHeaderSize) (hconnect : method ≠ .connect)
    (hlength : length.getD 0 = body.length) (hlt : body.length < ullongMax) :
    Finishes h none (lf :: body) ((Callback.headersComplete method.number ::
      ((if body = [] then [] else [.body body]) ++ [.messageComplete])).map .other) := by
  have hround (rest : List UInt8) : h.round lf rest =
      (Round.headersAlmostDone ⟨{ h with nread := h.nread + 1 }, [], false⟩ lf, 0) := by
    rw [h.round_byte lf rest (by rw [hs]; rfl) hn,
      Round.byte_headersAlmostDone hs]
  have hk₁ : Fields.Knows { h with nread := h.nread + 1 } method length := hk.move (.refl _)
  obtain ⟨u, hdone⟩ :=
    Round.headersAlmostDone_eq (r := ⟨{ h with nread := h.nread + 1 }, [], false⟩) hk₁
  generalize hr : (((Round.enter ⟨{ h with nread := h.nread + 1 }, [], false⟩ .headersDone).setUpgrade
    u).notifyNoadvance (.headersComplete method.number)) = r at hdone
  have hk₂ : r.fields.Knows method length := by
    rw [← hr]
    exact ⟨hk.ok, hk.type, hk.method, hk.strict, hk.flags, hk.contentLength⟩
  have hevents : r.events = [.notify (.headersComplete method.number) false] := by
    rw [← hr]
    rfl
  rw [hdone] at hround
  by_cases hnil : body = []
  · subst hnil
    obtain ⟨r', hout, hok, hevents'⟩ := Round.headersDone_whole hk₂ hlength
    rw [hevents] at hevents'
    obtain hout | hout := hout
    · exact Finishes.next (by rw [hround, hout]; rfl) hok (by rw [hevents']; rfl)
    · exact Finishes.done (by rw [hround, hout]; rfl) hok (by rw [hevents']; rfl)
  · have hpos := List.length_pos_iff.2 hnil
    rw [if_neg hnil]
    cases length with
    | none => exact absurd hlength hpos.ne
    | some n =>
      have hn : n = body.length := hlength
      subst hn
      rw [Round.headersDone_body hk₂ hpos hlt hconnect] at hround
      have htell : tells ((r.setNread 0).enter .bodyIdentity).fields [] [lf] none r.events =
          some (none, [.other (.headersComplete method.number)]) := by
        rw [hevents]
        rfl
      exact (Consumes.byte hround htell).finishes (Finishes.bodyIdentity
        (h := ((r.setNread 0).enter .bodyIdentity).fields) rfl hk₂.ok hnil hk₂.contentLength)

/-! ## A request -/

/-- The first line of a request. -/
def firstLine (m : RequestMessage) : List UInt8 :=
  m.method.name ++ ascii " " ++ m.target ++ ascii " HTTP/1.1" ++ crlf

theorem head_eq (m : RequestMessage) :
    m.head = firstLine m ++ (m.headers.flatMap headerLine ++ [cr]) ++ [lf] := by
  rw [RequestMessage.head, firstLine]
  simp only [List.append_assoc]
  rfl

theorem ofHttpMethod_ne {m : HttpMethod} (hm : m ≠ .httpConnect) : ofHttpMethod m ≠ .connect := by
  cases m <;> simp_all [ofHttpMethod]

theorem Consumes.firstLine (hmethod : m.method ≠ .httpConnect)
    (htarget : parseUrl m.target false ≠ none) (hn : (firstLine m).length ≤ maxHeaderSize) :
    ∃ h', Consumes (.init .request) none (firstLine m)
        [.other .messageBegin, .other (.url m.target)] h' none ∧
      h'.Knows (ofHttpMethod m.method) none ∧ h'.state = .headerFieldStart ∧
      h'.nread = (firstLine m).length := by
  have hline : Parser.firstLine m = (m.method.name ++ [chr ' ']) ++
      ((m.target ++ [chr ' ']) ++ (ascii "HTTP/1.1" ++ crlf)) := by
    rw [Parser.firstLine]
    simp only [List.append_assoc]
    rfl
  have hversion : (ascii "HTTP/1.1").length + crlf.length = 10 := by decide
  rw [hline] at hn ⊢
  simp only [List.length_append, List.length_singleton] at hn ⊢
  have hname := Consumes.methodName hmethod
  have hurl := Consumes.requestUrl
    (h := begun (ofHttpMethod m.method) .reqSpacesBeforeUrl (m.method.name.length + 1)) rfl
    (ofHttpMethod_ne hmethod) htarget (by show m.method.name.length + 1 + _ + 1 ≤ _; omega)
  have hend := Consumes.version (h := { begun (ofHttpMethod m.method) .reqSpacesBeforeUrl
      (m.method.name.length + 1) with
    state := .reqHttpStart
    nread := m.method.name.length + 1 + m.target.length + 1 }) rfl (by dsimp only; omega)
  refine ⟨_, hname.trans (hurl.trans hend), ⟨rfl, rfl, rfl, rfl, ⟨rfl, rfl, rfl, rfl⟩, rfl⟩, rfl, ?_⟩
  dsimp only
  omega

/-- The calls of a request read as one of the decoder. -/
theorem Finishes.request (m : RequestMessage) (hm : m.WellFormed requestParser)
    (hfit : m.body.length + 10 ≤ ullongMax) :
    Finishes (.init .request) none m.wire (m.callbacks.map .other) := by
  have htarget : parseUrl m.target false ≠ none := fun h => hm.target (congrArg (Option.map _) h)
  have hle : m.head.length ≤ maxHeaderSize := hm.head_le
  rw [head_eq] at hle
  simp only [List.length_append, List.length_singleton] at hle
  obtain ⟨h₁, hfirst, hk₁, hs₁, hn₁⟩ := Consumes.firstLine hm.method_ne htarget (by omega)
  obtain ⟨h₂, pending, hlines, hk₂⟩ := (LineStart.first hs₁).lines (n := m.body.length) hk₁ hm.names
    hm.values hm.noTransferEncoding (fun x hx hcl => ⟨hm.contentLength x hx hcl, rfl⟩)
    hm.contentLength_unique hfit (by omega)
  have hn₂ := hlines.nread
  obtain ⟨cs, hcs, hpending⟩ := hlines.reads
  obtain ⟨h₃, hlast, hk₃, hs₃, hn₃⟩ := hlines.start.last hk₂ (by omega)
  have hlength : (if ∃ x ∈ m.headers, IsContentLength x.1 then some m.body.length
      else none).getD 0 = m.body.length := by
    split
    case isTrue => rfl
    case isFalse hnone =>
      have hnil : m.body = [] := not_not.1 fun hne => hnone (hm.contentLength_of_body hne)
      rw [hnil]
      rfl
  have hbody := Finishes.body hs₃ hk₃ (by omega) (ofHttpMethod_ne hm.method_ne) hlength
    (by unfold ullongMax at hfit ⊢; omega)
  have hall := (hfirst.trans (hcs.trans hlast)).finishes hbody
  have hwire : m.wire =
      firstLine m ++ (m.headers.flatMap headerLine ++ [cr]) ++ (lf :: m.body) := by
    rw [RequestMessage.wire, head_eq, List.append_assoc _ [lf]]
    rfl
  have hcallbacks : m.callbacks.map .other =
      [.other .messageBegin, .other (.url m.target)] ++ (cs ++ pending) ++
        (Callback.headersComplete (ofHttpMethod m.method).number ::
          ((if m.body = [] then [] else [.body m.body]) ++ [.messageComplete])).map
            ResponseCallback.other := by
    rw [← hpending, number_ofHttpMethod, RequestMessage.callbacks, RequestMessage.headCallbacks,
      RequestMessage.bodyCallbacks]
    simp only [List.map_append, List.append_assoc, List.map_cons, List.map_nil, List.nil_append,
      List.cons_append]
  rw [hwire, hcallbacks]
  exact hall

theorem map_request? {calls : List (ResponseCallback × Nat)} {cbs : List Callback}
    (h : calls.map Prod.fst = cbs.map .other) : (calls.filterMap request?).map Prod.fst = cbs := by
  induction calls generalizing cbs with
  | nil => exact (List.map_eq_nil_iff.1 h.symm).symm
  | cons call calls ih =>
    obtain ⟨cb, cbs, rfl, hcb, hcbs⟩ := List.map_eq_cons_iff.1 h.symm
    obtain ⟨call, stop⟩ := call
    obtain rfl : ResponseCallback.other cb = call := hcb
    exact congrArg (cb :: ·) (ih hcbs.symm)

/-- **The parser reads requests** as what they are. -/
theorem requestParser_reads (m : RequestMessage) (hfit : m.body.length + 10 ≤ ullongMax) :
    requestParser.Reads m := by
  intro hm
  obtain ⟨calls, run, hcs, hcalls, hok, hloop⟩ := Finishes.request m hm hfit [] false 0
  have hne : m.wire ≠ [] := by
    rw [RequestMessage.wire, head_eq]
    simp
  have hstart : Run.start (.init .request) = ⟨.init .request, marks none, [], false⟩ := by
    rw [Run.start]
    congr 1
  have hexecute : execute (.init .request) m.wire = (run, 0 + m.wire.length) := by
    rw [execute_eq rfl hne, hstart, hloop]
  refine ⟨?_, ?_, ?_⟩
  · show ((execute (.init .request) m.wire).1.calls.filterMap request?).map Prod.fst = m.callbacks
    rw [hexecute, hcalls]
    exact map_request? hcs
  · show (execute (.init .request) m.wire).2 = m.wire.length
    rw [hexecute, Nat.zero_add]
  · show decide ((execute (.init .request) m.wire).1.fields.httpErrno = .ok) = true
    rw [hexecute]
    exact decide_eq_true hok

end SNet.Http.Parser
