import Mathlib.Tactic.Common
import SNet.Library.Bytes

/-!
# Encoding messages

`HttpEncoder` with its header map, and the tables of `http_message.h`. A `std::map` is a `TreeMap`,
whose list is in the order of the iteration; strings are compared by their bytes.
-/

namespace SNet.Http

inductive HttpMethod
  | httpGet
  | httpHead
  | httpPost
  | httpPut
  | httpDelete
  | httpTrace
  | httpOptions
  | httpConnect
  | httpPatch
  deriving DecidableEq, Repr

/-- `http_method_string`; `PATCH` has the string of `TRACE`. -/
def httpMethodString : HttpMethod → List UInt8
  | .httpGet => ascii "GET"
  | .httpPost => ascii "POST"
  | .httpHead => ascii "HEAD"
  | .httpPut => ascii "PUT"
  | .httpDelete => ascii "DELETE"
  | .httpTrace => ascii "TRACE"
  | .httpOptions => ascii "OPTIONS"
  | .httpConnect => ascii "CONNECT"
  | .httpPatch => ascii "TRACE"

/-- `mime_types::to_mime`. -/
def toMime (ext : List UInt8) : List UInt8 :=
  if ext = ascii "gif" then ascii "image/gif"
  else if ext = ascii "htm" ∨ ext = ascii "html" then ascii "text/html"
  else if ext = ascii "jpg" then ascii "image/jpeg"
  else if ext = ascii "png" then ascii "image/png"
  else if ext = ascii "txt" then ascii "text/html"
  else ascii "text/plain"

/-- `status_strings::to_string`. -/
def statusString (code : UInt32) : List UInt8 :=
  match code.toNat with
  | 101 => ascii "HTTP/1.1 101  Web Socket Protocol Handshake"
  | 200 => ascii "HTTP/1.0 200 OK"
  | 201 => ascii "HTTP/1.0 201 Created"
  | 202 => ascii "HTTP/1.0 202 Accepted"
  | 204 => ascii "HTTP/1.0 204 No Content"
  | 300 => ascii "HTTP/1.0 300 Multiple Choices"
  | 301 => ascii "HTTP/1.0 301 Moved Permanently"
  | 302 => ascii "HTTP/1.0 302 Moved Temporarily"
  | 304 => ascii "HTTP/1.0 304 Not Modified"
  | 400 => ascii "HTTP/1.0 400 Bad Request"
  | 401 => ascii "HTTP/1.0 401 Unauthorized"
  | 403 => ascii "HTTP/1.0 403 Forbidden"
  | 404 => ascii "HTTP/1.0 404 Not Found"
  | 500 => ascii "HTTP/1.0 500 Internal Server Error"
  | 501 => ascii "HTTP/1.0 501 Not Implemented"
  | 502 => ascii "HTTP/1.0 502 Bad Gateway"
  | 503 => ascii "HTTP/1.0 503 Service Unavailable"
  | _ => ascii "HTTP/1.0 400 Bad Request"

def crlf : List UInt8 := [13, 10]

/-- Free of CR and LF. -/
def NoEol (bs : List UInt8) : Prop := 13 ∉ bs ∧ 10 ∉ bs

instance decidableNoEol (bs : List UInt8) : Decidable (NoEol bs) :=
  inferInstanceAs (Decidable (_ ∧ _))

theorem NoEol.append {as bs : List UInt8} (ha : NoEol as) (hb : NoEol bs) : NoEol (as ++ bs) :=
  ⟨fun h => (List.mem_append.1 h).elim ha.1 hb.1, fun h => (List.mem_append.1 h).elim ha.2 hb.2⟩

/-! ## Headers -/

/-- `http_headers`, a `std::map<std::string, std::string>`. -/
abbrev Headers := Std.TreeMap (List UInt8) (List UInt8)

/-- `add_header`. -/
def Headers.addHeader (hs : Headers) (key value : List UInt8) : Headers := hs.insert key value

/-- The headers that `encode` writes, in order. -/
def Headers.written (hs : Headers) : List (List UInt8 × List UInt8) :=
  hs.toList.filter fun h => !h.1.isEmpty

/-- A header line. -/
def headerLine (h : List UInt8 × List UInt8) : List UInt8 := h.1 ++ ascii ": " ++ h.2 ++ crlf

/-- The fields of a message that the encoder uses. -/
structure Encodable where
  content : List UInt8 := []
  contentType : List UInt8 := []
  httpHeaders : Headers := {}

def Encodable.addHeader (e : Encodable) (key value : List UInt8) : Encodable :=
  { e with httpHeaders := e.httpHeaders.addHeader key value }

/-- Several calls of `add_header`. -/
def Encodable.addHeaders (e : Encodable) (hs : List (List UInt8 × List UInt8)) : Encodable :=
  hs.foldl (fun e h => e.addHeader h.1 h.2) e

/-- `set_content`; nothing happens for an empty body. -/
def Encodable.setContent (e : Encodable) (body type : List UInt8) : Encodable :=
  if body = [] then e
  else
    { e with content := body, contentType := toMime type }.addHeader (ascii "Content-Length")
      (ascii (toString body.length))

/-! ## What is written -/

variable {e : Encodable} {hs : List (List UInt8 × List UInt8)} {h : List UInt8 × List UInt8}
  {key value : List UInt8}

theorem Headers.mem_written {hs : Headers} :
    (key, value) ∈ hs.written ↔ hs[key]? = some value ∧ key ≠ [] := by
  rw [Headers.written, List.mem_filter, Std.TreeMap.mem_toList_iff_getElem?_eq_some,
    Bool.not_eq_true', List.isEmpty_eq_false_iff]

@[simp] theorem Encodable.content_addHeaders : (e.addHeaders hs).content = e.content := by
  induction hs generalizing e with
  | nil => rfl
  | cons h hs ih => exact ih

/-- A header of the map was there before or was set. -/
theorem Encodable.getElem?_addHeaders (hget : (e.addHeaders hs).httpHeaders[key]? = some value) :
    e.httpHeaders[key]? = some value ∨ (key, value) ∈ hs := by
  induction hs generalizing e with
  | nil => exact .inl hget
  | cons h hs ih =>
    rcases ih hget with hold | hmem
    · change (e.httpHeaders.insert h.1 h.2)[key]? = some value at hold
      rw [Std.TreeMap.getElem?_insert] at hold
      split at hold
      · next heq =>
        rw [Std.LawfulEqCmp.compare_eq_iff_eq] at heq
        cases hold
        exact .inr (heq ▸ .head _)
      · exact .inl hold
    · exact .inr (.tail _ hmem)

/-- Names stand once. -/
theorem Headers.written_distinct {hs : Headers} : hs.written.Pairwise fun a b => a.1 ≠ b.1 := by
  refine List.Pairwise.filter _ (Std.TreeMap.distinct_keys_toList.imp fun {a b} hne => ?_)
  rwa [Std.LawfulEqCmp.compare_eq_iff_eq] at hne

/-- A header that is not set stays. -/
theorem Encodable.getElem?_addHeaders_of_notMem (hkey : key ∉ hs.map (·.1)) :
    (e.addHeaders hs).httpHeaders[key]? = e.httpHeaders[key]? := by
  induction hs generalizing e with
  | nil => rfl
  | cons h hs ih =>
    rw [List.map_cons, List.mem_cons, not_or] at hkey
    refine (ih hkey.2).trans ?_
    change (e.httpHeaders.insert h.1 h.2)[key]? = _
    rw [Std.TreeMap.getElem?_insert, if_neg]
    rw [Std.LawfulEqCmp.compare_eq_iff_eq]
    exact fun heq => hkey.1 heq.symm

/-- What is set last for a name is its header. -/
theorem Encodable.getElem?_addHeaders_last {hs' : List (List UInt8 × List UInt8)}
    (hkey : key ∉ hs'.map (·.1)) :
    (e.addHeaders (hs ++ (key, value) :: hs')).httpHeaders[key]? = some value := by
  rw [addHeaders, List.foldl_append, List.foldl_cons]
  refine (getElem?_addHeaders_of_notMem hkey).trans ?_
  exact Std.TreeMap.getElem?_insert_self

/-- The only header of a new message. -/
theorem Encodable.getElem?_setContent {content type : List UInt8} :
    (({} : Encodable).setContent content type).httpHeaders[key]? = some value ↔
      content ≠ [] ∧ key = ascii "Content-Length" ∧ value = ascii (toString content.length) := by
  rw [setContent]
  split
  · next h => simp [h]
  · next h =>
    change ((∅ : Headers).insert (ascii "Content-Length") _)[key]? = _ ↔ _
    rw [Std.TreeMap.getElem?_insert]
    split
    · next heq =>
      rw [Std.LawfulEqCmp.compare_eq_iff_eq] at heq
      simp [h, heq, eq_comm]
    · next hne =>
      rw [Std.LawfulEqCmp.compare_eq_iff_eq] at hne
      simp [Ne.symm hne]

end SNet.Http
