import SNet.Http.Connection

/-!
# Dispatching whole requests

`handle_data` starts a new parser for every chunk and looks up a route as soon as the parser has taken
one byte, complete or not. So the first chunk that begins like a request is dispatched and the
connection closed, wherever the stream was cut (`request_cut_short`); it is a whole request only if
the parser completed it in this chunk (`serve_whole_iff`). A stream is safe from that only if none of
its bytes begins a request (`dispatchesWhole_iff`).
-/

namespace SNet.Http

open Tcp Memory

variable {P : HttpParser} {d : HttpDecoder} {stale bs data chunk : List UInt8}
  {cs : List (List UInt8)} {ctl : Bool} {sent : Int} {conn : HttpConnection} {c : TcpConnection}
  {b : UInt8} {cbs : List (Callback × Nat)} {stop : Nat}

/-! ## The property and its condition -/

/-- The chunks in which `bs` may be received. -/
def Chunked (bs : List UInt8) (cs : List (List UInt8)) : Prop :=
  cs.flatten = bs ∧ ∀ c ∈ cs, c ≠ [] ∧ c.length ≤ kReadBufferSize

/-- In every chunking routes are looked up for whole requests only, and for the same requests. -/
def DispatchesWhole (P : HttpParser) (stale : List UInt8) (sent : Int) (ctl : Bool)
    (conn : HttpConnection) (bs : List UInt8) : Prop :=
  (∀ cs, Chunked bs cs → ∀ q ∈ dispatched (conn.serve P stale sent ctl cs).2, q.2 = true) ∧
  ∀ cs cs', Chunked bs cs → Chunked bs cs' →
    (dispatched (conn.serve P stale sent ctl cs).2).map (·.1) =
      (dispatched (conn.serve P stale sent ctl cs').2).map (·.1)

/-- A new parser takes `b`. -/
def HttpParser.Begins (P : HttpParser) (b : UInt8) : Prop := 0 < (P.execute P.init [b]).nparsed

instance HttpParser.decidableBegins (P : HttpParser) (b : UInt8) : Decidable (P.Begins b) :=
  inferInstanceAs (Decidable (_ < _))

/-- The first chunk of which a new parser takes the first byte. -/
def firstBegun (P : HttpParser) (cs : List (List UInt8)) : Option (List UInt8) :=
  cs.find? fun c => c.head?.any fun b => P.Begins b

/-! ## Parsing one chunk -/

theorem calls_stop (h : (HttpDecoder.calls P d cbs).2.2 = some stop) :
    ∃ m, (.headersComplete m, stop) ∈ cbs := by
  induction cbs generalizing d with
  | nil => cases h
  | cons q cbs ih =>
    obtain ⟨cb, stop'⟩ := q
    rw [HttpDecoder.calls] at h
    split at h
    · rcases ih h with ⟨m, hm⟩
      exact ⟨m, .tail _ hm⟩
    · next hne =>
      cases h
      cases cb with
      | headersComplete m => exact ⟨m, .head _⟩
      | _ => exact absurd rfl hne

theorem mem_of_endsComplete (h : HttpDecoder.endsComplete cbs = true) :
    ∃ stop, (.messageComplete, stop) ∈ cbs := by
  obtain ⟨⟨cb, stop⟩, hlast, hcb⟩ := (Option.any_eq_true _ _).1 h
  obtain rfl : cb = .messageComplete := of_decide_eq_true hcb
  exact ⟨stop, List.mem_of_getLast? hlast⟩

/-- `parse_request` returns 0 exactly where the parser takes nothing. -/
theorem msgLen_pos (hP : P.Documented) (hne : data ≠ []) (hlen : data.length ≤ kReadBufferSize) :
    0 < (HttpDecoder.parseRequest P d data).msgLen ↔ 0 < (P.execute P.init data).nparsed := by
  have hle := hP.nparsed_le P.init data hne
  have hsize : kReadBufferSize < 2 ^ 32 := by decide
  rw [HttpDecoder.parseRequest]
  split
  · next heq =>
    dsimp only
    rw [Nat.mod_eq_of_lt (by omega)]
  · next stop heq =>
    rcases calls_stop (congrArg (·.2.2) heq) with ⟨m, hm⟩
    rcases hP.head_ends data m stop hm with ⟨-, hpos, hstop⟩
    dsimp only
    rw [Nat.mod_eq_of_lt (by omega)]
    omega

/-- Whether the parser takes anything is decided by the first byte. -/
theorem nparsed_pos (hP : P.Documented) :
    0 < (P.execute P.init (b :: data)).nparsed ↔ P.Begins b := by
  have hne : [b] ≠ [] := List.cons_ne_nil b []
  refine ⟨fun h => ?_, fun h => Nat.lt_of_lt_of_le h (hP.resume P.init [b] data hne)⟩
  by_contra hzero
  cases hok : (P.execute P.init [b]).ok with
  | true => exact hzero (hP.nparsed_pos P.init [b] hne hok)
  | false =>
    have := hP.resume_error P.init [b] data hne hok (Nat.eq_zero_of_not_pos hzero)
    rw [List.singleton_append] at this
    exact Nat.ne_of_gt h this

theorem not_whole_singleton (hP : P.Documented) :
    (HttpDecoder.parseRequest P d [b]).whole = false := by
  rw [HttpDecoder.parseRequest]
  split
  · cases hends : HttpDecoder.endsComplete (P.execute P.init [b]).callbacks with
    | false => rfl
    | true =>
      rcases mem_of_endsComplete hends with ⟨stop, hstop⟩
      exact absurd (hP.message_ends [b] stop hstop) (Nat.lt_irrefl 1)
  · rfl

/-! ## Receiving one chunk -/

/-- The default `handle_package` takes the whole chunk for a package. -/
theorem receiveChunk_handlePackage (ctl : Bool) (hpos : c.readBufferPos = 0) (hne : chunk ≠ [])
    (hlen : chunk.length ≤ kReadBufferSize) :
    packages (receiveChunk handlePackage c chunk ctl).2 = [chunk] ∧
      (receiveChunk handlePackage c chunk ctl).1.readBufferPos = 0 ∧
      (receiveChunk handlePackage c chunk ctl).1.isOpen = c.isOpen := by
  have hsize : kReadBufferSize < 2 ^ 31 := by decide
  have hlt : 0 < chunk.length := List.length_pos_iff.2 hne
  have hpkg : ∀ buf, handlePackage buf 0 chunk.length = chunk.length := fun buf =>
    Int.bmod_eq_of_le_mul_two (by omega) (by omega)
  have hslice : slice (c.receive chunk).readBuffer 0 chunk.length = chunk := by
    have hbuf : (c.receive chunk).readBuffer = write c.readBuffer 0 chunk := by
      rw [TcpConnection.receive, hpos]
    rw [hbuf]
    exact slice_write_self
  have hloop : processLoop handlePackage (c.receive chunk).readBuffer chunk.length chunk.length 0 =
      ([chunk], some chunk.length) := by
    rw [processLoop_deliver hlt (by rw [hpkg]; omega) (by rw [hpkg]; omega), hpkg, Int.toNat_natCast,
      hslice, processLoop_stop fun h => absurd h (by omega), Nat.zero_add]
  have hfill : (c.receive chunk).readBufferPos + chunk.length = chunk.length := by
    rw [TcpConnection.receive_readBufferPos, hpos, Nat.zero_add]
  have hdata : processData handlePackage (c.receive chunk) chunk.length ctl =
      ({ c.receive chunk with readBufferPos := 0 }, [.handleData chunk], false) := by
    rw [processData_of_some (by rw [hfill, hloop]), hfill, hloop, Nat.sub_self]
    simp
  rw [receiveChunk, hdata]
  exact ⟨rfl, rfl, rfl⟩

/-! ## Serving a stream -/

/-- What is dispatched for a chunk that the parser begins. -/
def dispatchOf (P : HttpParser) (stale chunk : List UInt8) : HttpRequest × Bool :=
  let r := HttpDecoder.parseRequest P {} chunk
  (r.decoder.request stale, r.whole)

theorem dispatched_append {evs evs' : List HttpEvent} :
    dispatched (evs ++ evs') = dispatched evs ++ dispatched evs' := List.filterMap_append

theorem dispatched_responses {rsps : List HttpResponse} :
    dispatched (rsps.map HttpEvent.response) = [] := by
  induction rsps with
  | nil => rfl
  | cons rsp rsps ih => exact ih

theorem dispatched_write {rsp : HttpResponse} : dispatched (conn.write rsp ctl).2 = [] := by
  rw [HttpConnection.write]
  dsimp only
  split
  · rfl
  · rfl

theorem handleData_of_zero
    (h : ¬ 0 < (HttpDecoder.parseRequest P {} chunk).msgLen) :
    conn.handleData P stale chunk sent ctl = (conn, []) := if_neg h

theorem handleData_of_none (hr : conn.httpRouters = none) :
    conn.handleData P stale chunk sent ctl = (conn, []) := by
  rw [HttpConnection.handleData, hr]
  dsimp only
  split
  · rfl
  · rfl

theorem close_isOpen : (conn.close ctl).tcp.isOpen = false := by
  have hstatus : (conn.close ctl).tcp.connStatus ≠ .connOpen := by
    rw [HttpConnection.close, close_status]
    cases conn.tcp.connStatus <;> decide
  rw [TcpConnection.isOpen, beq_eq_false_iff_ne.2 hstatus, Bool.and_false]

/-- With routes, every chunk that the parser begins is dispatched, and the connection closed. -/
theorem handleData_of_pos {routers : HttpRouteMap} (hr : conn.httpRouters = some routers)
    (h : 0 < (HttpDecoder.parseRequest P {} chunk).msgLen) :
    dispatched (conn.handleData P stale chunk sent ctl).2 = [dispatchOf P stale chunk] ∧
      (conn.handleData P stale chunk sent ctl).1.tcp.isOpen = false := by
  rw [HttpConnection.handleData, if_pos h, hr]
  refine ⟨congrArg (_ :: ·) ?_, close_isOpen⟩
  change dispatched _ = []
  dsimp only
  split
  · split
    · rw [dispatched_append, dispatched_responses, dispatched_write]
      rfl
    · exact dispatched_responses
  · exact dispatched_write

/-- A chunk reaches `handle_data` as it is. -/
theorem receive_eq (hpos : conn.tcp.readBufferPos = 0) (hne : chunk ≠ [])
    (hlen : chunk.length ≤ kReadBufferSize) : ∃ conn' : HttpConnection,
      conn'.httpRouters = conn.httpRouters ∧ conn'.tcp.readBufferPos = 0 ∧
      conn'.tcp.isOpen = conn.tcp.isOpen ∧
      conn.receive P stale chunk sent ctl = conn'.handleData P stale chunk sent ctl := by
  rcases receiveChunk_handlePackage ctl hpos hne hlen with ⟨hpkg, hpos', hopen⟩
  refine ⟨{ conn with tcp := (receiveChunk handlePackage conn.tcp chunk ctl).1 }, rfl, hpos', hopen,
    ?_⟩
  rw [HttpConnection.receive, hpkg, HttpConnection.handleAll, HttpConnection.handleAll]
  dsimp only
  rw [List.append_nil]

theorem dispatched_serve_cons (hopen : conn.tcp.isOpen = true) :
    dispatched (conn.serve P stale sent ctl (chunk :: cs)).2 =
      dispatched (conn.receive P stale chunk sent ctl).2 ++
        dispatched ((conn.receive P stale chunk sent ctl).1.serve P stale sent ctl cs).2 := by
  rw [HttpConnection.serve, if_pos hopen]
  exact dispatched_append

/-- A connection that is closed receives nothing. -/
theorem serve_of_closed (h : conn.tcp.isOpen = false) :
    conn.serve P stale sent ctl cs = (conn, []) := by
  cases cs with
  | nil => rfl
  | cons chunk cs => rw [HttpConnection.serve, if_neg (by simp [h])]

theorem serve_of_none (hr : conn.httpRouters = none) (hopen : conn.tcp.isOpen = true)
    (hpos : conn.tcp.readBufferPos = 0)
    (hcs : ∀ c ∈ cs, c ≠ [] ∧ c.length ≤ kReadBufferSize) :
    dispatched (conn.serve P stale sent ctl cs).2 = [] := by
  induction cs generalizing conn with
  | nil => rfl
  | cons chunk cs ih =>
    rcases List.forall_mem_cons.1 hcs with ⟨⟨hne, hlen⟩, hcs⟩
    rcases receive_eq hpos hne hlen with ⟨conn', hr', hpos', hopen', heq⟩
    rw [dispatched_serve_cons hopen, heq, handleData_of_none (hr'.trans hr)]
    exact ih (hr'.trans hr) (hopen'.trans hopen) hpos' hcs

/-- **The first chunk that is begun** is the one that is dispatched. -/
theorem serve_dispatched {routers : HttpRouteMap} (hP : P.Documented)
    (hr : conn.httpRouters = some routers) (hopen : conn.tcp.isOpen = true)
    (hpos : conn.tcp.readBufferPos = 0)
    (hcs : ∀ c ∈ cs, c ≠ [] ∧ c.length ≤ kReadBufferSize) :
    dispatched (conn.serve P stale sent ctl cs).2 =
      ((firstBegun P cs).map (dispatchOf P stale)).toList := by
  induction cs generalizing conn with
  | nil => rfl
  | cons chunk cs ih =>
    rcases List.forall_mem_cons.1 hcs with ⟨⟨hne, hlen⟩, htail⟩
    rcases receive_eq hpos hne hlen with ⟨conn', hr', hpos', hopen', heq⟩
    obtain ⟨b, data, rfl⟩ := List.exists_cons_of_ne_nil hne
    have hbegins : 0 < (HttpDecoder.parseRequest P {} (b :: data)).msgLen ↔ P.Begins b :=
      (msgLen_pos hP hne hlen).trans (nparsed_pos hP)
    rw [dispatched_serve_cons hopen, heq]
    by_cases hb : P.Begins b
    · rcases handleData_of_pos (hr'.trans hr) (hbegins.2 hb) with ⟨hdisp, hclosed⟩
      rw [hdisp, serve_of_closed hclosed, firstBegun, List.find?_cons_of_pos (by simpa using hb)]
      rfl
    · rw [handleData_of_zero (mt hbegins.1 hb), firstBegun,
        List.find?_cons_of_neg (by simpa using hb)]
      exact ih (hr'.trans hr) (hopen'.trans hopen) hpos' htail

/-- A stream in single bytes. -/
theorem chunked_singletons : Chunked bs (bs.map fun b => [b]) := by
  refine ⟨?_, fun c hc => ?_⟩
  · induction bs with
    | nil => rfl
    | cons b bs ih => exact congrArg (b :: ·) ih
  · rcases List.mem_map.1 hc with ⟨b, -, rfl⟩
    exact ⟨List.cons_ne_nil b [], (by decide : 1 ≤ kReadBufferSize)⟩

theorem firstBegun_eq_none (h : Chunked bs cs) (hb : ∀ b ∈ bs, ¬ P.Begins b) :
    firstBegun P cs = none := by
  refine List.find?_eq_none.2 fun c hc hbegun => ?_
  cases c with
  | nil => exact absurd rfl (h.2 [] hc).1
  | cons b data =>
    refine hb b ?_ (by simpa using hbegun)
    rw [← h.1]
    exact List.mem_flatten.2 ⟨_, hc, List.mem_cons_self⟩

/-- With routes, only whole requests are dispatched exactly if the parser reports no error for the
first chunk that is begun and completes the message that it comes to last there. -/
theorem serve_whole_iff {routers : HttpRouteMap} (hP : P.Documented)
    (hr : conn.httpRouters = some routers) (hopen : conn.tcp.isOpen = true)
    (hpos : conn.tcp.readBufferPos = 0)
    (hcs : ∀ c ∈ cs, c ≠ [] ∧ c.length ≤ kReadBufferSize) :
    (∀ q ∈ dispatched (conn.serve P stale sent ctl cs).2, q.2 = true) ↔
      ∀ c, firstBegun P cs = some c → (HttpDecoder.parseRequest P {} c).whole = true := by
  rw [serve_dispatched hP hr hopen hpos hcs]
  cases firstBegun P cs with
  | none => simp
  | some c => simp [dispatchOf]

/-- **Requests are dispatched whole**: in every chunking of the stream only whole requests, and the
same, are dispatched if and only if there are no routes or a new parser takes none of its bytes. -/
theorem dispatchesWhole_iff (hP : P.Documented) (hopen : conn.tcp.isOpen = true)
    (hpos : conn.tcp.readBufferPos = 0) : DispatchesWhole P stale sent ctl conn bs ↔
      conn.httpRouters = none ∨ ∀ b ∈ bs, ¬ P.Begins b := by
  cases hr : conn.httpRouters with
  | none =>
    have hnone : ∀ cs, Chunked bs cs → dispatched (conn.serve P stale sent ctl cs).2 = [] :=
      fun cs hcs => serve_of_none hr hopen hpos hcs.2
    refine iff_of_true ⟨fun cs hcs q hq => ?_, fun cs cs' hcs hcs' => ?_⟩ (.inl rfl)
    · rw [hnone cs hcs] at hq
      cases hq
    · rw [hnone cs hcs, hnone cs' hcs']
  | some routers =>
    refine ⟨fun h => .inr fun b hb hbegins => ?_, fun h => ?_⟩
    · -- the stream in single bytes dispatches the first of them that is taken
      cases hfirst : firstBegun P (bs.map fun b => [b]) with
      | none =>
        have := List.find?_eq_none.1 hfirst [b] (List.mem_map.2 ⟨b, hb, rfl⟩)
        exact this (by simpa using hbegins)
      | some c =>
        obtain ⟨b', -, rfl⟩ := List.mem_map.1 (List.mem_of_find?_eq_some hfirst)
        have hb' := (serve_whole_iff hP hr hopen hpos chunked_singletons.2).1
          (h.1 _ chunked_singletons) _ hfirst
        rw [not_whole_singleton hP] at hb'
        cases hb'
    · have hbytes := h.resolve_left (Option.some_ne_none routers)
      have hnil : ∀ cs, Chunked bs cs → dispatched (conn.serve P stale sent ctl cs).2 = [] := by
        intro cs hcs
        rw [serve_dispatched hP hr hopen hpos hcs.2, firstBegun_eq_none hcs hbytes]
        rfl
      refine ⟨fun cs hcs q hq => ?_, fun cs cs' hcs hcs' => by rw [hnil cs hcs, hnil cs' hcs']⟩
      rw [hnil cs hcs] at hq
      cases hq

/-! ## One request -/

/-- `GET / HTTP/1.1` and an empty line. -/
def getRequest : List UInt8 :=
  [71, 69, 84, 32, 47, 32, 72, 84, 84, 80, 47, 49, 46, 49, 13, 10, 13, 10]

/-- The length of the common beginning. -/
def agree : List UInt8 → List UInt8 → Nat
  | a :: as, b :: bs => if a = b then agree as bs + 1 else 0
  | _, _ => 0

/-- What `http_parser` does with `getRequest`, cut anywhere; it takes no other bytes. -/
def getParser : HttpParser where
  Parser := Nat
  init := 0
  execute pos data :=
    let n := agree (getRequest.drop pos) data
    { callbacks :=
        (if pos = 0 ∧ 0 < n then [(.messageBegin, 1)] else []) ++
        (if pos ≤ 4 ∧ 4 < pos + n then [(.url [47], min n (6 - pos))] else []) ++
        if pos ≤ 17 ∧ 17 < pos + n then
          [(.headersComplete 1, 17 - pos), (.messageComplete, 18 - pos)] else []
      nparsed := n
      ok := n = data.length
      parser := pos + n }
  parseUrl url := if url = [47] then some ⟨some ⟨0, 1⟩, none⟩ else none

theorem agree_le {as bs : List UInt8} : agree as bs ≤ bs.length := by
  induction bs generalizing as with
  | nil => cases as <;> exact Nat.le_refl 0
  | cons b bs ih =>
    cases as with
    | nil => exact Nat.zero_le _
    | cons a as =>
      rw [agree]
      split
      · exact Nat.succ_le_succ ih
      · exact Nat.zero_le _

theorem agree_append {as bs more : List UInt8} : agree as bs ≤ agree as (bs ++ more) := by
  induction bs generalizing as with
  | nil => cases as <;> exact Nat.zero_le _
  | cons b bs ih =>
    cases as with
    | nil => exact Nat.le_refl _
    | cons a as =>
      rw [List.cons_append, agree, agree]
      split
      · exact Nat.succ_le_succ ih
      · exact Nat.le_refl _

theorem agree_append_of_zero {as bs more : List UInt8} (hne : bs ≠ []) (h : agree as bs = 0) :
    agree as (bs ++ more) = 0 := by
  cases bs with
  | nil => exact absurd rfl hne
  | cons b bs =>
    cases as with
    | nil => rfl
    | cons a as =>
      rw [agree] at h
      rw [List.cons_append, agree]
      split
      · next hab => cases (if_pos hab).symm.trans h
      · rfl

theorem getParser_documented : getParser.Documented where
  nparsed_le _ _ _ := agree_le
  nparsed_pos pos data hne hok := by
    have heq : (getParser.execute pos data).nparsed = data.length := of_decide_eq_true hok
    rw [heq]
    exact List.length_pos_iff.2 hne
  resume _ _ _ _ := agree_append
  resume_error _ _ _ hne _ hzero := agree_append_of_zero hne hzero
  head_ends data m stop h := by
    have hle : agree (getRequest.drop 0) data ≤ data.length := agree_le
    simp only [getParser, List.mem_append, List.mem_ite_nil_right, List.mem_cons,
      List.not_mem_nil, or_false, Prod.mk.injEq, reduceCtorEq, false_and, and_false, false_or] at h
    dsimp only [getParser]
    omega
  message_ends data stop h := by
    have hle : agree (getRequest.drop 0) data ≤ data.length := agree_le
    simp only [getParser, List.mem_append, List.mem_ite_nil_right, List.mem_cons,
      List.not_mem_nil, or_false, Prod.mk.injEq, reduceCtorEq, false_and, and_false, false_or] at h
    omega

/-- An open connection without routes for any path. -/
def server : HttpConnection where
  tcp := { readBuffer := fun _ => 0, connStatus := .connOpen, connSd := 5 }
  httpRouters := some fun _ => none

theorem dispatchesWhole_iff_getRequest : DispatchesWhole getParser [] 0 true server getRequest ↔
    server.httpRouters = none ∨ ∀ b ∈ getRequest, ¬ getParser.Begins b :=
  dispatchesWhole_iff getParser_documented (by decide) rfl

/-- The request in two chunks, of which `GET /` is the first. -/
theorem request_cut_short : ¬ ∀ (P : HttpParser) (stale : List UInt8) (sent : Int) (ctl : Bool)
    (conn : HttpConnection) (bs : List UInt8), P.Documented → conn.tcp.isOpen = true →
    conn.tcp.readBufferPos = 0 → DispatchesWhole P stale sent ctl conn bs := by
  intro h
  have hwhole := (h getParser [] 0 true server getRequest getParser_documented (by decide) rfl).1
  have hchunked : Chunked getRequest [getRequest.take 5, getRequest.drop 5] :=
    ⟨by decide, by decide⟩
  have hdisp : (⟨[], [], [], []⟩, false) ∈ dispatched (server.serve getParser [] 0 true
      [getRequest.take 5, getRequest.drop 5]).2 := by
    rw [serve_dispatched getParser_documented rfl (by decide) rfl hchunked.2]
    decide
  exact Bool.false_ne_true (hwhole _ hchunked _ hdisp)

end SNet.Http
