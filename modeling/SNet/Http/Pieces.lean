import SNet.Http.RequestCodec
import SNet.Library.Pieces

/-!
# Messages in pieces

A data callback may be called several times for one string. The callbacks of `HttpDecoder` assign
what they get, and `parse_value` adds a header for every piece. So of a string in several pieces the
last one is left, and a message comes out as it would in one piece only where nothing was delivered
in front (`independent_iff`).
-/

namespace SNet.Http

/-- A header, its name and value in pieces. -/
structure CutHeader where
  name : Cut UInt8
  value : Cut UInt8

/-- A message that a parser calls back: each string in pieces, the body if there is one, and the
headers behind a body in chunks. -/
structure CutMessage where
  url : Cut UInt8
  headers : List CutHeader
  method : Nat
  body : Option (Cut UInt8) := none
  trailers : List CutHeader := []

/-! ## Callbacks -/

/-- The callbacks that deliver something, or complete the message. -/
def Callback.delivers : Callback → Bool
  | .messageBegin | .chunkHeader _ | .chunkComplete => false
  | _ => true

namespace CutHeader

variable (h : CutHeader)

def callbacks : List Callback :=
  h.name.pieces.map .headerField ++ h.value.pieces.map .headerValue

def join : CutHeader := ⟨h.name.join, h.value.join⟩

def whole : List UInt8 × List UInt8 := (h.name.whole, h.value.whole)

/-- The entries that the decoder makes of it. -/
def entries : List (List UInt8 × List UInt8) := h.value.pieces.map fun v => (h.name.last, v)

end CutHeader

namespace CutMessage

variable (m : CutMessage)

/-- The message, each string in one piece. -/
def join : CutMessage :=
  { m with
    url := m.url.join
    headers := m.headers.map CutHeader.join
    body := m.body.map Cut.join
    trailers := m.trailers.map CutHeader.join }

def headCallbacks : List Callback :=
  m.url.pieces.map .url ++ m.headers.flatMap CutHeader.callbacks

def bodyCallbacks : List Callback := m.body.elim [] fun b => b.pieces.map .body

def restCallbacks : List Callback :=
  m.bodyCallbacks ++ m.trailers.flatMap CutHeader.callbacks ++ [.messageComplete]

def callbacks : List Callback := m.headCallbacks ++ .headersComplete m.method :: m.restCallbacks

/-- The callbacks of an execution deliver the message, the others anywhere between them. -/
def Carries (cbs : List (Callback × Nat)) : Prop :=
  (cbs.map (·.1)).filter Callback.delivers = m.callbacks

/-- The headers that are called back: those of the trailer only where the head was accepted. -/
def reached (accepted : Bool) : List CutHeader := m.headers ++ if accepted then m.trailers else []

end CutMessage

/-- `on_headers_complete` returns 0 for this URL. -/
def HttpParser.accepts (P : HttpParser) (url : List UInt8) : Bool :=
  match P.parseUrl url with
  | some ⟨none, _⟩ => false
  | _ => true

/-- What the head makes of the view of the path and of that of the query. -/
def HttpParser.pathView (P : HttpParser) (url : List UInt8) (v : View) : View :=
  match P.parseUrl url with
  | some ⟨some path, _⟩ => .bytes ((url.drop path.off).take path.len)
  | _ => v

def HttpParser.queryView (P : HttpParser) (url : List UInt8) (v : View) : View :=
  match P.parseUrl url with
  | some ⟨some _, some query⟩ => .bytes ((url.drop query.off).take query.len)
  | _ => v

/-! ## The property and its condition -/

/-- What two decoders show of their messages is the same, and whether these were completed. -/
structure SameMessage (r r' : HttpDecoder × Bool × Option Nat) : Prop where
  complete : r.2.1 = r'.2.1
  requestUrl : r.1.requestUrl = r'.1.requestUrl
  httpUrl : r.1.httpUrl = r'.1.httpUrl
  headers : r.1.headers = r'.1.headers
  getHeader : ∀ key, r.1.getHeader key = r'.1.getHeader key
  body : r.1.httpBody = r'.1.httpBody

/-- The message comes out as if each string was in one piece. -/
def Independent (P : HttpParser) (d : HttpDecoder) (m : CutMessage) : Prop :=
  ∀ cbs cbs', m.Carries cbs → m.join.Carries cbs' →
    SameMessage (HttpDecoder.calls P d cbs) (HttpDecoder.calls P d cbs')

/-- Nothing but the last piece has any bytes, and there is one piece of each header value. -/
structure CutMessage.Uncut (m : CutMessage) (P : HttpParser) : Prop where
  url : m.url.Idle
  headers : ∀ h ∈ m.reached (P.accepts m.url.whole), h.name.Idle ∧ h.value.front = []
  body : P.accepts m.url.whole = true → ∀ b ∈ m.body, b.Idle

variable {P : HttpParser} {d : HttpDecoder} {m : CutMessage} {h : CutHeader} {hs : List CutHeader}
  {cb : Callback} {cbs cbs' : List (Callback × Nat)} {f : List UInt8 → Callback} {c : Cut UInt8}

namespace HttpDecoder

/-! ## Calling back -/

/-- The other callbacks change nothing. -/
theorem calls_filter : calls P d (cbs.filter fun q => q.1.delivers) = calls P d cbs := by
  induction cbs generalizing d with
  | nil => rfl
  | cons q cbs ih =>
    obtain ⟨cb, stop⟩ := q
    rw [List.filter_cons]
    cases hcb : cb.delivers with
    | true =>
      rw [if_pos rfl, calls, calls, ih]
    | false =>
      have hcall : d.call P cb = (d, 0) := by
        cases cb with
        | messageBegin | chunkHeader _ | chunkComplete => rfl
        | _ => cases hcb
      have hne : cb ≠ .messageComplete := by
        rintro rfl
        cases hcb
      rw [if_neg Bool.false_ne_true, ih, calls, hcall]
      simp [hne]

/-- Only `on_headers_complete` returns anything but 0. -/
theorem call_snd (h : ∀ n, cb ≠ .headersComplete n) : (d.call P cb).2 = 0 := by
  cases cb with
  | headersComplete n => exact absurd rfl (h n)
  | _ => rfl

theorem quiet_of_noHead {cbs : List Callback} (h : ∀ cb ∈ cbs, ∀ n, cb ≠ .headersComplete n) :
    Quiet P d cbs := by
  induction cbs generalizing d with
  | nil => trivial
  | cons cb cbs ih =>
    rw [List.forall_mem_cons] at h
    exact ⟨call_snd h.1, ih h.2⟩

/-- Of a string that is assigned the last piece is left. -/
theorem after_pieces
    (h : ∀ (d : HttpDecoder) p q, ((d.call P (f p)).1.call P (f q)).1 = (d.call P (f q)).1) :
    after P d (c.pieces.map f) = (d.call P (f c.last)).1 := by
  rw [after, List.foldl_map]
  exact Cut.foldl_pieces h

theorem after_url : after P d (c.pieces.map .url) = (d.parseUrl c.last).1 := by
  refine after_pieces fun d p q => ?_
  have hview : ∀ v : View, v.invalidate.invalidate = v.invalidate := by
    intro v
    cases v with
    | bytes bs => cases bs <;> rfl
    | dangling => rfl
  simp only [call, parseUrl, hview]

theorem after_field : after P d (c.pieces.map .headerField) = (d.parseField c.last).1 :=
  after_pieces fun _ _ _ => rfl

theorem after_body : after P d (c.pieces.map .body) = (d.parseBody c.last).1 :=
  after_pieces fun _ _ _ => rfl

/-- Every piece of a value becomes an entry. -/
theorem after_values (ps : List (List UInt8)) : ∃ value,
    after P d (ps.map .headerValue) =
      { d with
        headers := d.headers ++ ps.map fun v => (d.parseHeader.1, v)
        parseHeader := (d.parseHeader.1, value) } := by
  induction ps generalizing d with
  | nil => exact ⟨d.parseHeader.2, by simp [after]⟩
  | cons p ps ih =>
    rcases ih (d := (d.parseValue p).1) with ⟨value, hvalue⟩
    refine ⟨value, hvalue.trans ?_⟩
    simp [parseValue]

theorem after_cutHeaders (hs : List CutHeader) : ∃ last,
    after P d (hs.flatMap CutHeader.callbacks) =
      { d with headers := d.headers ++ hs.flatMap CutHeader.entries, parseHeader := last } := by
  induction hs generalizing d with
  | nil => exact ⟨d.parseHeader, by simp [after]⟩
  | cons h hs ih =>
    rcases after_values (P := P) (d := (d.parseField h.name.last).1) h.value.pieces with
      ⟨value, hvalue⟩
    rcases ih (d := after P d h.callbacks) with ⟨last, hlast⟩
    refine ⟨last, ?_⟩
    rw [List.flatMap_cons, after_append, hlast, CutHeader.callbacks, after_append, after_field,
      hvalue, List.flatMap_cons, ← List.append_assoc]
    rfl

/-- What `parse_header_complete` sets. -/
theorem parseHeaderComplete_eq {n : Nat} : ∃ method,
    d.parseHeaderComplete P n =
      ({ d with
          httpPath := P.pathView d.requestUrl d.httpPath
          httpQuery := P.queryView d.requestUrl d.httpQuery
          methodValue := method }, if P.accepts d.requestUrl then 0 else -1) := by
  rw [parseHeaderComplete, HttpParser.pathView, HttpParser.queryView, HttpParser.accepts]
  cases P.parseUrl d.requestUrl with
  | none => exact ⟨d.methodValue, rfl⟩
  | some info =>
    obtain ⟨path, query⟩ := info
    cases path with
    | none => exact ⟨d.methodValue, rfl⟩
    | some path =>
      cases query with
      | none => exact ⟨some n, rfl⟩
      | some query => exact ⟨some n, rfl⟩

/-- The decoder where the head is complete. -/
theorem after_headCallbacks : ∃ last,
    after P d m.headCallbacks =
      { (d.parseUrl m.url.last).1 with
        headers := d.headers ++ m.headers.flatMap CutHeader.entries
        parseHeader := last } := by
  rcases after_cutHeaders (P := P) (d := (d.parseUrl m.url.last).1) m.headers with
    ⟨last, hlast⟩
  refine ⟨last, ?_⟩
  rw [CutMessage.headCallbacks, after_append, after_url, hlast]
  rfl

/-- The rest of the message. -/
theorem after_restCallbacks : ∃ last,
    after P d m.restCallbacks =
      { d with
        httpBody := (m.body.map Cut.last).getD d.httpBody
        headers := d.headers ++ m.trailers.flatMap CutHeader.entries
        parseHeader := last } := by
  have hbody : after P d m.bodyCallbacks =
      { d with httpBody := (m.body.map Cut.last).getD d.httpBody } := by
    rw [CutMessage.bodyCallbacks]
    cases m.body with
    | none => rfl
    | some b => exact after_body
  rcases after_cutHeaders (P := P)
    (d := { d with httpBody := (m.body.map Cut.last).getD d.httpBody }) m.trailers with ⟨last, hlast⟩
  refine ⟨last, ?_⟩
  rw [CutMessage.restCallbacks, after_append, after_append, hbody, hlast]
  rfl

end HttpDecoder

/-! ## What the decoder has of a message -/

namespace CutMessage

/-- A callback that delivers a piece. -/
def IsPiece (cb : Callback) : Prop := cb.delivers = true ∧ cb ≠ .messageComplete ∧
  ∀ n, cb ≠ .headersComplete n

theorem isPiece_map {ps : List (List UInt8)} (h : ∀ p, IsPiece (f p)) :
    ∀ cb ∈ ps.map f, IsPiece cb := List.forall_mem_map.2 fun p _ => h p

theorem isPiece_headers : ∀ cb ∈ hs.flatMap CutHeader.callbacks, IsPiece cb := by
  intro cb hcb
  rcases List.mem_flatMap.1 hcb with ⟨h, -, hcb⟩
  rcases List.mem_append.1 hcb with hcb | hcb
  · exact isPiece_map (fun p => ⟨rfl, by simp, by simp⟩) cb hcb
  · exact isPiece_map (fun p => ⟨rfl, by simp, by simp⟩) cb hcb

theorem isPiece_head : ∀ cb ∈ m.headCallbacks, IsPiece cb := by
  intro cb hcb
  rcases List.mem_append.1 hcb with hcb | hcb
  · exact isPiece_map (fun p => ⟨rfl, by simp, by simp⟩) cb hcb
  · exact isPiece_headers cb hcb

theorem isPiece_body : ∀ cb ∈ m.bodyCallbacks, IsPiece cb := by
  rw [bodyCallbacks]
  cases m.body with
  | none => exact List.forall_mem_nil _
  | some b => exact isPiece_map fun p => ⟨rfl, by simp, by simp⟩

theorem isPiece_rest : ∀ cb ∈ m.restCallbacks, IsPiece cb ∨ cb = .messageComplete := by
  intro cb hcb
  rcases List.mem_append.1 hcb with hcb | hcb
  · rcases List.mem_append.1 hcb with hcb | hcb
    · exact .inl (isPiece_body cb hcb)
    · exact .inl (isPiece_headers cb hcb)
  · exact .inr (List.mem_singleton.1 hcb)

end CutMessage

/-- What the decoder `d` has after the callbacks of a message. -/
structure Delivered (P : HttpParser) (d : HttpDecoder) (m : CutMessage)
    (r : HttpDecoder × Bool × Option Nat) : Prop where
  complete : r.2.1 = P.accepts m.url.last
  requestUrl : r.1.requestUrl = m.url.last
  httpUrl : r.1.httpUrl = m.url.last
  path : r.1.httpPath = P.pathView m.url.last d.httpPath.invalidate
  query : r.1.httpQuery = P.queryView m.url.last d.httpQuery.invalidate
  headers : r.1.headers =
    d.headers ++ (m.reached (P.accepts m.url.last)).flatMap CutHeader.entries
  body : r.1.httpBody =
    if P.accepts m.url.last then (m.body.map Cut.last).getD d.httpBody else d.httpBody

open HttpDecoder in
/-- Only the end of the head may stop the parser. -/
theorem calls_of_carries (hm : m.Carries cbs) : ∃ (d' : HttpDecoder) (stop : Nat),
    (after P d m.headCallbacks).parseHeaderComplete P m.method =
      (d', if P.accepts m.url.last then 0 else -1) ∧
    calls P d cbs = if P.accepts m.url.last then (after P d' m.restCallbacks, true, none)
      else (d', false, some stop) := by
  have hmap : (cbs.filter fun q => q.1.delivers).map (·.1) = m.callbacks := by
    rw [← hm, List.filter_map]
    rfl
  rcases List.map_eq_append_iff.1 hmap with ⟨before, others, heq, hhead, hothers⟩
  rcases List.map_eq_cons_iff.1 hothers with ⟨⟨cb, stop⟩, rest, rfl, rfl, hrest⟩
  have hquiet : Quiet P d (before.map (·.1)) := by
    rw [hhead]
    exact quiet_of_noHead fun cb hcb => (CutMessage.isPiece_head cb hcb).2.2
  have hnot : .messageComplete ∉ before.map (·.1) := by
    rw [hhead]
    exact fun hmem => (CutMessage.isPiece_head _ hmem).2.1 rfl
  rcases after_headCallbacks (P := P) (d := d) (m := m) with ⟨last, hlast⟩
  rcases parseHeaderComplete_eq (P := P) (d := after P d m.headCallbacks) (n := m.method) with
    ⟨method, hcall⟩
  have hurl : (after P d m.headCallbacks).requestUrl = m.url.last := by
    rw [hlast]
    rfl
  rw [hurl] at hcall
  refine ⟨_, stop, hcall, ?_⟩
  rw [← calls_filter, heq, calls_append hquiet, decide_eq_false hnot, hhead, calls, call, hcall]
  cases P.accepts m.url.last with
  | false => rfl
  | true =>
    have hquiet' : ∀ d', Quiet P d' (rest.map (·.1)) := by
      intro d'
      rw [hrest]
      refine quiet_of_noHead fun cb hcb n => ?_
      rcases CutMessage.isPiece_rest cb hcb with hpiece | rfl
      · exact hpiece.2.2 n
      · exact Callback.noConfusion
    have hcomplete : .messageComplete ∈ m.restCallbacks :=
      List.mem_append_right _ List.mem_cons_self
    simp only [calls_of_quiet (hquiet' _), hrest, decide_eq_true hcomplete, Bool.or_true]
    rfl

open HttpDecoder in
/-- **The decoder after a message**, of which the last pieces are left. -/
theorem delivered (hm : m.Carries cbs) : Delivered P d m (calls P d cbs) := by
  rcases calls_of_carries (P := P) (d := d) hm with ⟨d₂, stop, hcall, hcalls⟩
  rcases after_headCallbacks (P := P) (d := d) (m := m) with ⟨last, hlast⟩
  rcases parseHeaderComplete_eq (P := P) (d := after P d m.headCallbacks) (n := m.method) with
    ⟨method, hhead⟩
  rw [hhead, hlast] at hcall
  obtain rfl := congrArg (·.1) hcall
  rw [hcalls]
  cases haccepts : P.accepts m.url.last with
  | false =>
    constructor
    · exact haccepts.symm
    · rfl
    · rfl
    · rfl
    · rfl
    · simp [CutMessage.reached, haccepts]
    · simp [haccepts, parseUrl]
  | true =>
    rw [if_pos rfl]
    rcases after_restCallbacks (P := P) (m := m) with ⟨last', hrest⟩
    rw [hrest]
    constructor
    · exact haccepts.symm
    · rfl
    · rfl
    · rfl
    · rfl
    · simp [CutMessage.reached, haccepts]
    · simp [haccepts, parseUrl]

/-! ## Independence -/

theorem join_entries : h.join.entries = [h.whole] := rfl

/-- A header comes out as one entry. -/
theorem entries_eq_iff : h.entries = [h.whole] ↔ h.name.Idle ∧ h.value.front = [] := by
  rw [← Cut.last_eq_whole_iff, ← Cut.pieces_eq_singleton_iff]
  constructor
  · intro heq
    have hvalue := congrArg (List.map (·.2)) heq
    rw [CutHeader.entries, List.map_map, List.map_singleton] at hvalue
    have hpieces : h.value.pieces = [h.value.whole] := (List.map_id _).symm.trans hvalue
    rw [CutHeader.entries, hpieces, List.map_singleton, List.cons.injEq] at heq
    exact ⟨congrArg (·.1) heq.1, hpieces⟩
  · intro ⟨hname, hvalue⟩
    rw [CutHeader.entries, hvalue, hname]
    rfl

theorem entries_ne_nil : h.entries ≠ [] := fun hnil =>
  Cut.pieces_ne_nil (List.map_eq_nil_iff.1 hnil)

/-- In one piece each header is one entry. -/
theorem reached_join {accepted : Bool} :
    (m.join.reached accepted).flatMap CutHeader.entries =
      (m.reached accepted).map CutHeader.whole := by
  have hjoin : m.join.reached accepted = (m.reached accepted).map CutHeader.join := by
    rw [CutMessage.reached, CutMessage.reached, List.map_append]
    cases accepted <;> rfl
  rw [hjoin, List.flatMap_map]
  exact (Cut.flatMap_eq_map_iff fun _ _ => entries_ne_nil).2 fun _ _ => join_entries

/-- The last piece of a body is the body. -/
theorem body_join_iff {old : List UInt8} : (m.body.map Cut.last).getD old =
    (m.join.body.map Cut.last).getD old ↔ ∀ b ∈ m.body, b.Idle := by
  rw [CutMessage.join]
  cases m.body with
  | none => simp
  | some b =>
    refine Cut.last_eq_whole_iff.trans ⟨fun hidle b' hb' => ?_, fun hall => hall b rfl⟩
    cases hb'
    exact hidle

/-- In one piece a string comes out as all its pieces together, and a header as one entry. -/
theorem delivered_join (hm : m.join.Carries cbs) :
    (HttpDecoder.calls P d cbs).1.requestUrl = m.url.pieces.flatten ∧
    (HttpDecoder.calls P d cbs).1.headers =
      d.headers ++ (m.reached (P.accepts m.url.whole)).map CutHeader.whole ∧
    (P.accepts m.url.whole = true →
      ∀ b ∈ m.body, (HttpDecoder.calls P d cbs).1.httpBody = b.pieces.flatten) := by
  have hjoin := delivered (P := P) (d := d) hm
  have hurl : m.join.url.last = m.url.whole := rfl
  rw [Cut.flatten_pieces]
  refine ⟨hjoin.requestUrl, ?_, fun haccepts b hb => ?_⟩
  · rw [hjoin.headers, reached_join, hurl]
  · have hb' : m.join.body = some b.join := congrArg (Option.map Cut.join) hb
    rw [hjoin.body, hurl, if_pos haccepts, hb', Cut.flatten_pieces]
    rfl

/-- A message is carried by its own callbacks. -/
theorem carries_callbacks : m.Carries (m.callbacks.map fun cb => (cb, 0)) := by
  have hdelivers : ∀ cb ∈ m.callbacks, cb.delivers = true := by
    intro cb hcb
    rcases List.mem_append.1 hcb with hhead | hrest
    · exact (CutMessage.isPiece_head cb hhead).1
    · rcases List.mem_cons.1 hrest with rfl | hrest
      · rfl
      · rcases CutMessage.isPiece_rest cb hrest with hpiece | rfl
        · exact hpiece.1
        · rfl
  rw [CutMessage.Carries, List.map_map]
  exact (congrArg _ (List.map_id _)).trans (List.filter_eq_self.2 hdelivers)

/-- **When the pieces do not matter**: the message comes out as if each string was in one piece
exactly if only the last pieces of its URL, its header names and its body have any bytes, and there
is one piece of each header value; behind a head that is not accepted nothing matters. -/
theorem independent_iff : Independent P d m ↔ m.Uncut P := by
  constructor
  · intro h
    have hsame := h _ _ carries_callbacks carries_callbacks
    have hcut := delivered (P := P) (d := d) (m := m) carries_callbacks
    have hjoin := delivered (P := P) (d := d) (m := m.join) carries_callbacks
    have hurl : m.url.last = m.url.whole :=
      (hcut.requestUrl.symm.trans hsame.requestUrl).trans hjoin.requestUrl
    have hurl' : m.join.url.last = m.url.whole := rfl
    constructor
    · exact Cut.last_eq_whole_iff.1 hurl
    · have hheaders := (hcut.headers.symm.trans hsame.headers).trans hjoin.headers
      rw [hurl, hurl', reached_join] at hheaders
      have hentries := (Cut.flatMap_eq_map_iff fun _ _ => entries_ne_nil).1
        (List.append_cancel_left hheaders)
      exact fun h hmem => entries_eq_iff.1 (hentries h hmem)
    · intro haccepts
      have hbody := (hcut.body.symm.trans hsame.body).trans hjoin.body
      rw [hurl, hurl', if_pos haccepts, if_pos haccepts] at hbody
      exact body_join_iff.1 hbody
  · intro hu cbs cbs' hm hm'
    have hcut := delivered (P := P) (d := d) hm
    have hjoin := delivered (P := P) (d := d) hm'
    have hurl : m.join.url.last = m.url.last := (Cut.last_eq_whole_iff.2 hu.url).symm
    have hheaders : (HttpDecoder.calls P d cbs).1.headers =
        (HttpDecoder.calls P d cbs').1.headers := by
      rw [hcut.headers, hjoin.headers, hurl, reached_join]
      congr 1
      refine (Cut.flatMap_eq_map_iff fun _ _ => entries_ne_nil).2 fun h hmem => ?_
      rw [Cut.last_eq_whole_iff.2 hu.url] at hmem
      exact entries_eq_iff.2 (hu.headers h hmem)
    constructor
    · rw [hcut.complete, hjoin.complete, hurl]
    · rw [hcut.requestUrl, hjoin.requestUrl, hurl]
    · rw [hcut.httpUrl, hjoin.httpUrl, hurl]
    · exact hheaders
    · intro key
      rw [HttpDecoder.getHeader, HttpDecoder.getHeader, hheaders]
    · rw [hcut.body, hjoin.body, hurl]
      split
      · next haccepts =>
        rw [Cut.last_eq_whole_iff.2 hu.url] at haccepts
        exact body_join_iff.2 (hu.body haccepts)
      · rfl

/-- A request with `abcd` for a body, in two chunks. -/
def twoChunks : CutMessage where
  url := ⟨[], ascii "/"⟩
  headers := []
  method := 3
  body := some ⟨[ascii "ab"], ascii "cd"⟩

def twoChunksCallbacks : List Callback :=
  [.messageBegin, .url (ascii "/"), .headersComplete 3, .chunkHeader 2, .body (ascii "ab"),
    .chunkComplete, .chunkHeader 2, .body (ascii "cd"), .chunkComplete, .chunkHeader 0,
    .chunkComplete, .messageComplete]

/-- Of the two chunks the second is left. -/
theorem twoChunks_not_joined : ¬ ∀ (P : HttpParser) (d : HttpDecoder) (m : CutMessage),
    Independent P d m := by
  intro h
  have hsame := h
    (Codec.scriptedRequestParser twoChunksCallbacks (some ⟨some ⟨0, 1⟩, none⟩) 0 0 true) {} twoChunks
    (twoChunksCallbacks.map fun cb => (cb, 0))
    (twoChunks.join.callbacks.map fun cb => (cb, 0)) rfl carries_callbacks
  exact absurd hsame.body (by decide)

end SNet.Http
