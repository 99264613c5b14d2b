import SNet.Http.ResponseWriting
import SNet.Library.Lines

/-!
# The head of a message

The encoder copies the url, the names and the values of the headers as they are, and keeps no line
break out of them. `heads_intact_iff` says when the head has the lines that it is meant to have.
-/

namespace SNet.Http.Codec

/-- The calls that set a header. -/
inductive HeaderCall
  | addHeader (key value : List UInt8)
  | setCookie (v : List UInt8)
  | setHost (host : List UInt8)
  | setAgent (agent : List UInt8)
  deriving DecidableEq, Repr

def Encodable.call (e : Encodable) : HeaderCall → Encodable
  | .addHeader key value => e.addHeader key value
  | .setCookie v => e.addHeader (ascii "Cookie") v
  | .setHost host => e.addHeader (ascii "Host") host
  | .setAgent agent => e.addHeader (ascii "User-Agent") agent

/-- A header without the end of its line. -/
def headerText (h : List UInt8 × List UInt8) : List UInt8 := h.1 ++ ascii ": " ++ h.2

/-- The start line of a request. -/
def HttpRequest.startLine (r : HttpRequest) : List UInt8 :=
  httpMethodString r.httpMethod ++ ascii " " ++ r.httpUrl ++ ascii " " ++ ascii "HTTP/1.1"

/-- The lines that the encoder adds to every response. -/
def fixedLines (date : List UInt8) : List (List UInt8) :=
  [ascii "Server: SNet Http Server v0.1", ascii "Date: " ++ date]

/-- One line for each header that is written. -/
def headerTexts (e : Encodable) : List (List UInt8) := e.httpHeaders.written.map headerText

def HttpRequest.IntactHead (r : HttpRequest) : Prop :=
  Lines.head r.encode = r.startLine :: headerTexts r.message

def HttpResponse.IntactHead (r : HttpResponse) (date : List UInt8) : Prop :=
  Lines.head (r.dump date) =
    statusString r.statusCode :: headerTexts r.message ++ fixedLines date

/-- No header that is written has a line feed in it. -/
def OneLine (e : Encodable) : Prop := ∀ h ∈ e.httpHeaders.written, 10 ∉ h.1 ∧ 10 ∉ h.2

variable {e : Encodable} {date : List UInt8}

theorem flatMap_headerLine {hs : List (List UInt8 × List UInt8)} :
    hs.flatMap headerLine = (hs.map headerText).flatMap (· ++ Lines.eol) := by
  rw [List.flatMap_map]
  rfl

theorem not_mem_headerText {h : List UInt8 × List UInt8} :
    10 ∉ headerText h ↔ 10 ∉ h.1 ∧ 10 ∉ h.2 := by
  have hsep : (10 : UInt8) ∉ ascii ": " := by decide
  simp only [headerText, List.mem_append, not_or, hsep, not_false_eq_true, and_true]

theorem headerText_ne_nil {h : List UInt8 × List UInt8} : headerText h ≠ [] := by
  simp [headerText, ascii]

theorem forall_headerTexts : (∀ l ∈ headerTexts e, 10 ∉ l) ↔ OneLine e := by
  simp only [headerTexts, List.forall_mem_map, not_mem_headerText, OneLine]

theorem headerTexts_ne_nil : ∀ l ∈ headerTexts e, l ≠ [] := by
  simp only [headerTexts, List.forall_mem_map]
  exact fun h _ => headerText_ne_nil

/-- What a request encodes to, as lines. -/
theorem encode_eq_lines {r : HttpRequest} : r.encode =
    (r.startLine :: headerTexts r.message).flatMap (· ++ Lines.eol) ++ Lines.eol ++
      r.message.content := by
  rw [HttpRequest.encode, flatMap_headerLine, List.flatMap_cons]
  rfl

theorem dump_eq_lines {r : HttpResponse} : r.dump date =
    (statusString r.statusCode :: headerTexts r.message ++ fixedLines date).flatMap
      (· ++ Lines.eol) ++ Lines.eol ++ r.message.content := by
  rw [HttpResponse.dump, flatMap_headerLine, List.flatMap_append, List.flatMap_cons]
  simp only [fixedLines, List.flatMap_cons, List.flatMap_nil, List.append_nil, List.append_assoc]
  rfl

theorem not_mem_startLine {r : HttpRequest} : 10 ∉ r.startLine ↔ 10 ∉ r.httpUrl := by
  have hmethod : (10 : UInt8) ∉ httpMethodString r.httpMethod := by
    cases r.httpMethod <;> decide
  have hblank : (10 : UInt8) ∉ ascii " " := by decide
  have hversion : (10 : UInt8) ∉ ascii "HTTP/1.1" := by decide
  simp only [HttpRequest.startLine, List.mem_append, not_or, hmethod, hblank, hversion,
    not_false_eq_true, true_and, and_true]

theorem startLine_ne_nil {r : HttpRequest} : r.startLine ≠ [] := by
  simp [HttpRequest.startLine, ascii]

theorem statusString_isLine {code : UInt32} :
    statusString code ≠ [] ∧ 10 ∉ statusString code :=
  forall_statusString (p := fun line => line ≠ [] ∧ 10 ∉ line) (by decide)

theorem request_intact_iff {r : HttpRequest} :
    r.IntactHead ↔ 10 ∉ r.httpUrl ∧ OneLine r.message := by
  have hne : ∀ l ∈ r.startLine :: headerTexts r.message, l ≠ [] :=
    List.forall_mem_cons.2 ⟨startLine_ne_nil, headerTexts_ne_nil⟩
  rw [HttpRequest.IntactHead, encode_eq_lines, Lines.head_flatMap_iff hne, List.forall_mem_cons,
    not_mem_startLine, forall_headerTexts]

theorem response_intact_iff {r : HttpResponse} (hdate : 10 ∉ date) :
    r.IntactHead date ↔ OneLine r.message := by
  have hfixed : ∀ l ∈ fixedLines date, l ≠ [] ∧ 10 ∉ l := by
    have hname : (10 : UInt8) ∉ ascii "Date: " := by decide
    refine List.forall_mem_cons.2 ⟨⟨by decide, by decide⟩, List.forall_mem_singleton.2 ⟨?_, ?_⟩⟩
    · simp [ascii]
    · rw [List.mem_append, not_or]
      exact ⟨hname, hdate⟩
  have hne : ∀ l ∈ statusString r.statusCode :: headerTexts r.message ++ fixedLines date, l ≠ [] := by
    rw [List.forall_mem_append, List.forall_mem_cons]
    exact ⟨⟨statusString_isLine.1, headerTexts_ne_nil⟩, fun l hl => (hfixed l hl).1⟩
  rw [HttpResponse.IntactHead, dump_eq_lines, Lines.head_flatMap_iff hne, List.forall_mem_append,
    List.forall_mem_cons, forall_headerTexts]
  exact ⟨fun h => h.1.2, fun h => ⟨⟨statusString_isLine.2, h⟩, fun l hl => (hfixed l hl).2⟩⟩

/-- **When the head has its own lines only**, whatever calls have set its headers: exactly when no
header that it has, and in a request not the url, has a line feed in it. -/
theorem heads_intact_iff (calls : List HeaderCall) :
    (∀ r : HttpRequest,
      let r' := { r with message := calls.foldl Encodable.call r.message }
      r'.IntactHead ↔ 10 ∉ r'.httpUrl ∧ OneLine r'.message) ∧
      ∀ (r : HttpResponse) (date : List UInt8), 10 ∉ date →
        let r' := { r with message := calls.foldl Encodable.call r.message }
        r'.IntactHead date ↔ OneLine r'.message :=
  ⟨fun _ => request_intact_iff, fun _ _ hdate => response_intact_iff hdate⟩

/-- A request with a cookie and a response with a date. -/
theorem heads_intact_iff_cookie :
    let calls : List HeaderCall := [.setCookie (ascii "id=7"), .setHost (ascii "h")]
    (∀ r : HttpRequest,
      let r' := { r with message := calls.foldl Encodable.call r.message }
      r'.IntactHead ↔ 10 ∉ r'.httpUrl ∧ OneLine r'.message) ∧
      ∀ r : HttpResponse,
        let r' := { r with message := calls.foldl Encodable.call r.message }
        r'.IntactHead epoch ↔ OneLine r'.message :=
  ⟨(heads_intact_iff _).1, fun r => (heads_intact_iff _).2 r epoch (by decide)⟩

/-- A url that brings a header of its own, and a cookie that ends the head. -/
theorem heads_not_intact :
    (¬ ∀ r : HttpRequest, r.IntactHead) ∧
      ¬ ∀ (calls : List HeaderCall) (date : List UInt8), 10 ∉ date →
        HttpResponse.IntactHead { message := calls.foldl Encodable.call {} } date := by
  constructor
  · intro h
    have hurl := request_intact_iff.1
      (h { httpMethod := .httpGet, httpUrl := ascii "/" ++ crlf ++ ascii "X-Admin: 1" })
    exact absurd hurl.1 (by decide)
  · intro h
    have hline := (response_intact_iff (by decide)).1
      (h [.setCookie (crlf ++ crlf ++ ascii "<script>")] epoch (by decide))
    have hmem : (ascii "Cookie", crlf ++ crlf ++ ascii "<script>") ∈
        Headers.written ((({} : Encodable).addHeader (ascii "Cookie")
          (crlf ++ crlf ++ ascii "<script>")).httpHeaders) :=
      Headers.mem_written.2 ⟨Std.TreeMap.getElem?_insert_self, by decide⟩
    exact absurd (hline _ hmem).2 (by decide)

end SNet.Http.Codec
