import SNet.Http.ParserReading
import SNet.Http.ParserUrlSpec
import SNet.Http.Request

/-!
# Reading a first line

The parser reads the first line of a request: its method, whose first letter stands for one until
the others say which, and its URL, which the machine of URLs goes through.
-/

namespace SNet.Http.Parser

open Codec (ResponseCallback)

variable {h h' : Fields} {method : Method} {n : Nat} {s : State} {c : UInt8}
  {bs target : List UInt8} {r r' r₁ : UrlRun} {p : Nat} {l : List UInt8}

/-! ## The method -/

/-- The method that the parser makes of the name of one. -/
def ofHttpMethod : HttpMethod → Method
  | .httpDelete => .delete
  | .httpGet => .get
  | .httpHead => .head
  | .httpPost => .post
  | .httpPut => .put
  | .httpConnect => .connect
  | .httpOptions => .options
  | .httpTrace => .trace
  | .httpPatch => .patch

@[simp] theorem number_ofHttpMethod (m : HttpMethod) : (ofHttpMethod m).number = m.number := by
  cases m <;> rfl

theorem length_name_le (m : HttpMethod) : m.name.length ≤ 7 := by cases m <;> decide

/-- A parser of requests that has read a part of a first line. -/
def begun (method : Method) (s : State) (n : Nat) : Fields :=
  { Fields.init .request with
    state := s, contentLength := ullongMax, method := method, index := n, nread := n }

theorem quietly_name (m : HttpMethod) (hm : m ≠ .httpConnect) :
    ∃ c tail m₀, m.name = c :: tail ∧ ¬ (c = cr ∨ c = lf) ∧ Method.ofLetter c = some m₀ ∧
      (tail ++ [chr ' ']).foldlM Fields.quietly (begun m₀ .reqMethod 1) =
        some (begun (ofHttpMethod m) .reqSpacesBeforeUrl (m.name.length + 1)) := by
  cases m
  case httpConnect => exact absurd rfl hm
  all_goals exact ⟨_, _, _, rfl, by decide, rfl, rfl⟩

theorem Consumes.methodName {m : HttpMethod} (hm : m ≠ .httpConnect) :
    Consumes (.init .request) none (m.name ++ [chr ' ']) [.other .messageBegin]
      (begun (ofHttpMethod m) .reqSpacesBeforeUrl (m.name.length + 1)) none := by
  obtain ⟨c, tail, m₀, hname, hc, hletter, hquiet⟩ := quietly_name m hm
  have hle := length_name_le m
  have hround (rest : List UInt8) : (Fields.init .request).round c rest =
      (.next ⟨begun m₀ .reqMethod 1, [.notify .messageBegin true], false⟩, 0) := by
    show (Round.startReq _ c, 0) = _
    unfold Round.startReq
    rw [if_neg hc, hletter]
    rfl
  have hrest := Consumes.quietly _ (o := none) hquiet (by
    rw [hname, List.length_cons] at hle
    rw [List.length_append, List.length_singleton]
    show 1 + (tail.length + 1) ≤ 80 * 1024
    omega)
  rw [hname] at hrest ⊢
  exact (Consumes.byte (o := none) hround rfl).trans hrest.1

/-! ## The URL -/

/-- The states in front of a server. -/
def State.early : State → Bool
  | .reqSchema | .reqSchemaSlash | .reqSchemaSlashSlash | .reqServerStart => true
  | _ => false

theorem parseUrlChar_early (s : State) (c : UInt8) :
    (parseUrlChar s c).early = false ∨ s.early ∧ (parseUrlChar s c).urlPart ≠ some .host ∨
      s = .reqSpacesBeforeUrl ∧ parseUrlChar s c = .reqSchema := by
  unfold parseUrlChar parseUrlChar.server
  split
  · exact .inl rfl
  split <;> (try split_ifs) <;>
    first
      | exact .inl rfl
      | exact .inr (.inl ⟨rfl, by simp [State.urlPart]⟩)
      | exact .inr (.inr ⟨rfl, rfl⟩)

/-- In front of a server its field is not noted, but the one of the schema is. -/
structure UrlRun.Early (r : UrlRun) : Prop where
  spaces : r.s = .reqSpacesBeforeUrl → r.oldUf = none ∧ r.u.field .host = none
  early : r.s.early → (r.u.field .schema).isSome ∧ r.u.field .host = none

theorem urlStep_early (hr : r.Early) (h : urlStep r p c = some r₁) :
    r₁.s = parseUrlChar r.s c ∧ r₁.s ≠ .dead ∧ r₁.Early := by
  unfold urlStep at h
  dsimp only at h
  by_cases hdead : parseUrlChar r.s c = .dead
  · rw [if_pos hdead] at h
    cases h
  rw [if_neg hdead] at h
  have hspaces : parseUrlChar r.s c ≠ .reqSpacesBeforeUrl := fun hs => by
    have := (parseUrlChar_cases r.s c).resolve_left hdead
    rw [hs] at this
    cases this
  have hearly := parseUrlChar_early r.s c
  generalize parseUrlChar r.s c = s at h hdead hspaces hearly
  have hhost (he : s.early) : r.u.field .host = none := by
    rw [he] at hearly
    obtain h | ⟨hs, -⟩ | ⟨hs, -⟩ := hearly
    · cases h
    · exact (hr.early hs).2
    · exact (hr.spaces hs).2
  cases hpart : s.urlPart with
  | none =>
    rw [hpart] at h hearly
    cases h
    refine ⟨rfl, hdead, fun hs => absurd hs hspaces, fun he => ⟨?_, hhost he⟩⟩
    rw [show s.early = true from he] at hearly
    obtain h | ⟨hs, -⟩ | ⟨-, hs⟩ := hearly
    · cases h
    · exact (hr.early hs).1
    · rw [hs] at hpart
      cases hpart
  | some uf =>
    have huf (he : s.early) : uf = .schema := by
      cases s <;> cases he <;> cases hpart
      rfl
    rw [hpart] at h
    dsimp only at h
    split at h
    case isTrue hold =>
      cases h
      refine ⟨rfl, hdead, fun hs => absurd hs hspaces, fun he => ?_⟩
      obtain rfl := huf he
      rw [show s.early = true from he] at hearly
      have hs : r.s.early := by
        obtain h | ⟨hs, -⟩ | ⟨hs, -⟩ := hearly
        · cases h
        · exact hs
        · rw [(hr.spaces hs).1] at hold
          cases hold
      simp [Url.grow, hhost he, (hr.early hs).1]
    case isFalse =>
      cases h
      refine ⟨rfl, hdead, fun hs => absurd hs hspaces, fun he => ?_⟩
      obtain rfl := huf he
      exact ⟨rfl, (Url.field_set_of_ne (by simp)).trans (hhost he)⟩

theorem urlLoop_early (hr : r.Early) (h : urlLoop r p l = some r') :
    r'.s = l.foldl parseUrlChar r.s ∧ r'.Early := by
  induction l generalizing r p with
  | nil =>
    cases h
    exact ⟨rfl, hr⟩
  | cons c l ih =>
    obtain ⟨r₁, h₁, h₂⟩ := Option.bind_eq_some_iff.1 h
    obtain ⟨hs₁, -, hr₁⟩ := urlStep_early hr h₁
    obtain ⟨hs', hr'⟩ := ih hr₁ h₂
    exact ⟨by rw [hs', hs₁, List.foldl_cons], hr'⟩

/-- The machine goes through a URL that is taken apart, to a state in which it may end. -/
theorem foldl_of_parseUrl (h : parseUrl target false ≠ none) :
    target ≠ [] ∧ target.foldl parseUrlChar .reqSpacesBeforeUrl ≠ .dead ∧
      (target.foldl parseUrlChar .reqSpacesBeforeUrl).early = false := by
  obtain ⟨u, hu⟩ := Option.ne_none_iff_exists'.1 h
  obtain ⟨hne, r, hrun, hschema, -⟩ := parseUrl_eq_some_iff.1 hu
  have hstart : UrlRun.Early { s := .reqSpacesBeforeUrl } :=
    ⟨fun _ => ⟨rfl, rfl⟩, fun he => by cases he⟩
  obtain ⟨hs, hr⟩ := urlLoop_early hstart hrun
  refine ⟨hne, foldl_of_urlLoop hrun (by simp), ?_⟩
  rw [← hs, Bool.eq_false_iff]
  intro he
  obtain ⟨hsome, hnone⟩ := hr.early he
  have := hschema hsome
  rw [hnone] at this
  cases this

/-! ## The URL in a request -/

theorem Round.byte_reqSpacesBeforeUrl {r : Round} (hs : r.fields.state = .reqSpacesBeforeUrl) :
    r.byte c = r.reqSpacesBeforeUrl c := by
  simp only [byte, hs]

theorem Round.byte_url {r : Round} (hs : r.fields.state.resumed = some .url)
    (hc : parseUrlChar r.fields.state c ≠ .dead) :
    r.byte c = .next (r.enter (parseUrlChar r.fields.state c)) := by
  have hends : ¬ (c = chr ' ' ∨ c = cr ∨ c = lf) := by
    intro h
    refine hc (if_pos ?_)
    obtain h | h | h := h
    · exact .inl h
    · exact .inr (.inl h)
    · exact .inr (.inr (.inl h))
  have hurl : r.urlChar c = .next (r.enter (parseUrlChar r.fields.state c)) := if_neg hc
  unfold byte
  cases hstate : r.fields.state <;> rw [hstate] at hs <;> try cases hs
  all_goals
    dsimp only
    rw [← hstate, ← hurl]
  case reqSchema | reqSchemaSlash | reqSchemaSlashSlash | reqServerStart => exact if_neg hends
  all_goals
    obtain ⟨hspace, heol⟩ := not_or.1 hends
    exact (if_neg hspace).trans (if_neg heol)

/-- A URL may end behind its server, and in front of it only where it has none. -/
theorem Round.byte_urlEnd {r : Round} (hs : r.fields.state.resumed = some .url)
    (hearly : r.fields.state.early = false) :
    r.byte (chr ' ') = .next ((r.enter .reqHttpStart).callData .url) := by
  unfold byte
  cases hstate : r.fields.state <;> rw [hstate] at hs hearly
  case reqServer | reqServerWithAt | reqPath | reqQueryStringStart | reqQueryString |
      reqFragmentStart | reqFragment =>
    exact if_pos rfl
  case reqSchema | reqSchemaSlash | reqSchemaSlashSlash | reqServerStart => cases hearly
  all_goals cases hs

theorem resumed_foldl (hs : s.resumed = some .url) (hl : l.foldl parseUrlChar s ≠ .dead) :
    (l.foldl parseUrlChar s).resumed = some .url := by
  induction l generalizing s with
  | nil => exact hs
  | cons c l ih =>
    have hc := Scan.step_ne_of_foldl_ne parseUrlChar_dead hl
    exact ih ((parseUrlChar_cases s c).resolve_left hc) hl

theorem Fields.quietly_url (hs : h.state.resumed = some .url) (hc : parseUrlChar h.state c ≠ .dead) :
    h.quietly c = some { h with state := parseUrlChar h.state c, nread := h.nread + 1 } := by
  have hline : h.state.inLine := by
    revert hs
    cases h.state <;> simp [State.resumed, State.inLine]
  unfold quietly
  rw [if_pos hline, Round.byte_url (r := ⟨{ h with nread := h.nread + 1 }, [], false⟩) hs hc]
  rfl

theorem Fields.foldlM_quietly (bs : List UInt8) (hs : h.state.resumed = some .url)
    (hbs : bs.foldl parseUrlChar h.state ≠ .dead) :
    bs.foldlM quietly h =
      some { h with state := bs.foldl parseUrlChar h.state, nread := h.nread + bs.length } := by
  induction bs generalizing h with
  | nil => rfl
  | cons c bs ih =>
    have hc := Scan.step_ne_of_foldl_ne parseUrlChar_dead hbs
    have hs' := (parseUrlChar_cases h.state c).resolve_left hc
    rw [List.foldlM_cons, quietly_url hs hc]
    have hrest := ih (h := { h with state := parseUrlChar h.state c, nread := h.nread + 1 }) hs' hbs
    rw [List.length_cons, Nat.add_comm bs.length, ← Nat.add_assoc]
    exact hrest

/-- The first character of a URL. -/
theorem Consumes.urlStart (hs : h.state = .reqSpacesBeforeUrl) (hconnect : h.method ≠ .connect)
    (hc : parseUrlChar .reqSpacesBeforeUrl c ≠ .dead) (hn : h.nread < maxHeaderSize) :
    Consumes h none [c] []
      { h with state := parseUrlChar .reqSpacesBeforeUrl c, nread := h.nread + 1 }
      (some (.url, [c])) := by
  have hspace : c ≠ chr ' ' := fun h => hc (if_pos (.inl h))
  have hround (rest : List UInt8) : h.round c rest = (.next
      ⟨{ h with state := parseUrlChar .reqSpacesBeforeUrl c, nread := h.nread + 1 }, [.mark .url],
        false⟩, 0) := by
    rw [h.round_byte c rest (by rw [hs]; rfl) hn,
      Round.byte_reqSpacesBeforeUrl hs]
    unfold Round.reqSpacesBeforeUrl Round.urlChar
    rw [if_neg hspace]
    dsimp only [Round.setMark, Round.event]
    rw [if_neg hconnect, hs, if_neg hc]
    rfl
  exact Consumes.byte (o := none) hround rfl

/-- The blank behind a URL. -/
theorem Consumes.urlEnd (bs : List UInt8) (hs : h.state.resumed = some .url)
    (hearly : h.state.early = false) (hn : h.nread < maxHeaderSize) :
    Consumes h (some (.url, bs)) [chr ' '] [.other (.url bs)]
      { h with state := .reqHttpStart, nread := h.nread + 1 } none := by
  have hround (rest : List UInt8) : h.round (chr ' ') rest = (.next
      ⟨{ h with state := .reqHttpStart, nread := h.nread + 1 }, [.data .url false true],
        false⟩, 0) := by
    have htakes : h.state.takesByte := by
      revert hs
      cases h.state <;> decide
    rw [h.round_byte (chr ' ') rest htakes hn, Round.byte_urlEnd hs hearly]
    rfl
  have htell : tells { h with state := .reqHttpStart, nread := h.nread + 1 } [] [chr ' ']
      (some (.url, bs)) [.data .url false true] = some (none, [.other (.url bs)]) := by
    rw [tells_data, List.append_nil]
    rfl
  exact Consumes.byte hround htell

/-- The URL of a request and the blank behind it. -/
theorem Consumes.requestUrl (hs : h.state = .reqSpacesBeforeUrl) (hconnect : h.method ≠ .connect)
    (htarget : parseUrl target false ≠ none) (hn : h.nread + target.length + 1 ≤ maxHeaderSize) :
    Consumes h none (target ++ [chr ' ']) [.other (.url target)]
      { h with state := .reqHttpStart, nread := h.nread + target.length + 1 } none := by
  obtain ⟨hne, hdead, hearly⟩ := foldl_of_parseUrl htarget
  obtain ⟨c, bs, rfl⟩ := List.exists_cons_of_ne_nil hne
  rw [List.length_cons] at hn ⊢
  have hc := Scan.step_ne_of_foldl_ne parseUrlChar_dead hdead
  have hs₁ := (parseUrlChar_cases .reqSpacesBeforeUrl c).resolve_left hc
  have hfirst := Consumes.urlStart hs hconnect hc (by omega)
  obtain ⟨hrest, -⟩ := Consumes.quietly bs (o := some (.url, [c])) (Fields.foldlM_quietly bs
    (h := { h with state := parseUrlChar .reqSpacesBeforeUrl c, nread := h.nread + 1 }) hs₁ hdead)
    (by dsimp only; omega)
  have hend := Consumes.urlEnd (c :: bs) (h := { h with
    state := bs.foldl parseUrlChar (parseUrlChar .reqSpacesBeforeUrl c)
    nread := h.nread + 1 + bs.length }) (resumed_foldl hs₁ hdead) hearly (by dsimp only; omega)
  have hall := hfirst.trans (hrest.trans hend)
  dsimp only at hall
  rw [Nat.add_assoc h.nread, Nat.add_comm 1 bs.length] at hall
  exact hall

/-- The version of a request. -/
theorem Consumes.version (hs : h.state = .reqHttpStart) (hn : h.nread + 10 ≤ maxHeaderSize) :
    Consumes h none (ascii "HTTP/1.1" ++ crlf) []
      { h with state := .headerFieldStart, nread := h.nread + 10, httpMajor := 1, httpMinor := 1 }
      none := by
  refine (Consumes.quietly _ (o := none) ?_ hn).1
  cases h
  cases hs
  rfl

end SNet.Http.Parser
