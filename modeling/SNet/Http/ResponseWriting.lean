import SNet.Http.Request
import SNet.Http.ResponseCodec
import SNet.Library.Text

/-!
# Writing a response

The three ways in which a handler writes a message through the `writer` of its response. `text` and
`json` do nothing with the message and leave `status_code` as it is, and `write` passes an empty one
to `set_content`, which keeps the content of before: `sendsMessage_iff` says when the message is sent
all the same.
-/

namespace SNet.Http.Codec

namespace HttpResponse

variable (r : HttpResponse)

/-- What `dump()` puts in front of the empty line. -/
def head (date : List UInt8) : List UInt8 :=
  statusString r.statusCode ++ crlf ++ r.message.httpHeaders.written.flatMap headerLine ++
    (ascii "Server: SNet Http Server v0.1" ++ crlf) ++ (ascii "Date: " ++ date ++ crlf)

/-- What `json` and `text` have in common: the response and what the writer is called with. -/
def sendAs (type : List UInt8) (writer : Bool) (date : List UInt8) :
    HttpResponse × List (List UInt8) :=
  if writer then
    let r' := { r with message := r.message.addHeader (ascii "Content-Type") type }
    (r', [r'.dump date])
  else (r, [])

def json (_msg : List UInt8) (writer : Bool) (date : List UInt8) :
    HttpResponse × List (List UInt8) :=
  r.sendAs (ascii "application/json") writer date

def text (_msg : List UInt8) (writer : Bool) (date : List UInt8) :
    HttpResponse × List (List UInt8) :=
  r.sendAs (ascii "text/html; charset=UTF-8") writer date

/-- `write(msg, code)` -/
def write (msg : List UInt8) (code : UInt32) (writer : Bool) (date : List UInt8) :
    HttpResponse × List (List UInt8) :=
  if writer then
    let r' :=
      { r with
        statusCode := if r.statusCode = 0 then code else r.statusCode
        message := (r.message.setContent msg (ascii "txt")).addHeader (ascii "Content-Type")
          (ascii "text/html; charset=UTF-8") }
    (r', [r'.dump date])
  else (r, [])

/-- `write()` -/
def writeDefault (writer : Bool) (date : List UInt8) : HttpResponse × List (List UInt8) :=
  if writer then
    let r' := { r with statusCode := if r.statusCode = 0 then 200 else r.statusCode }
    (r', [r'.dump date])
  else (r, [])

end HttpResponse

/-! ## Histories -/

/-- The calls that send a message. -/
inductive Variant
  | write (code : UInt32)
  | text
  | json
  deriving DecidableEq, Repr

def HttpResponse.send (r : HttpResponse) (msg : List UInt8) (writer : Bool) (date : List UInt8) :
    Variant → HttpResponse × List (List UInt8)
  | .write code => r.write msg code writer date
  | .text => r.text msg writer date
  | .json => r.json msg writer date

/-- What may have happened to a response before, a message being sent at the time `date`. -/
inductive Earlier
  | send (v : Variant) (msg date : List UInt8)
  | writeDefault (date : List UInt8)
  | addHeader (key value : List UInt8)
  /-- `status_code` is assigned. -/
  | setStatus (code : UInt32)

def HttpResponse.before (r : HttpResponse) : Earlier → HttpResponse
  | .send v msg date => (r.send msg true date v).1
  | .writeDefault date => (r.writeDefault true date).1
  | .addHeader key value => { r with message := r.message.addHeader key value }
  | .setStatus code => { r with statusCode := code }

/-- No header that is added says how long the content is. -/
def Earlier.NoLength : Earlier → Prop
  | .addHeader key _ => ¬ IsContentLength key
  | .send .. | .writeDefault _ | .setStatus _ => True

/-- A response with a writer, of any constructor and after any history. -/
def Used (r : HttpResponse) : Prop :=
  ∃ (c : UInt32) (rsp type : List UInt8) (hist : List Earlier), (∀ e ∈ hist, e.NoLength) ∧
    r = hist.foldl HttpResponse.before (HttpResponse.ofCode c rsp type)

/-! ## The length of the content -/

/-- The only header that tells the length tells that of the content, and there is none without
content. -/
def Measured (e : Encodable) : Prop :=
  ∀ key value, e.httpHeaders[key]? = some value → IsContentLength key →
    key = ascii "Content-Length" ∧ e.content ≠ [] ∧ value = ascii (toString e.content.length)

theorem getElem?_addHeader {e : Encodable} {k v key value : List UInt8}
    (h : (e.addHeader k v).httpHeaders[key]? = some value) :
    (key = k ∧ value = v) ∨ (key ≠ k ∧ e.httpHeaders[key]? = some value) := by
  change (e.httpHeaders.insert k v)[key]? = some value at h
  rw [Std.TreeMap.getElem?_insert] at h
  split at h
  · next heq =>
    rw [Std.LawfulEqCmp.compare_eq_iff_eq] at heq
    cases h
    exact .inl ⟨heq.symm, rfl⟩
  · next hne =>
    rw [Std.LawfulEqCmp.compare_eq_iff_eq] at hne
    exact .inr ⟨Ne.symm hne, h⟩

theorem Measured.addHeader {e : Encodable} {k v : List UInt8} (h : Measured e)
    (hk : ¬ IsContentLength k) : Measured (e.addHeader k v) := by
  intro key value hget hkey
  rcases getElem?_addHeader hget with ⟨rfl, -⟩ | ⟨-, hold⟩
  · exact absurd hkey hk
  · exact h key value hold hkey

theorem Measured.setContent {e : Encodable} {body type : List UInt8} (h : Measured e) :
    Measured (e.setContent body type) := by
  rw [Encodable.setContent]
  split
  · exact h
  · next hne =>
    intro key value hget hkey
    rcases getElem?_addHeader hget with ⟨rfl, rfl⟩ | ⟨hk, hold⟩
    · exact ⟨rfl, hne, rfl⟩
    · exact absurd (h key value hold hkey).1 hk

theorem not_isContentLength_type : ¬ IsContentLength (ascii "Content-Type") := by decide

theorem measured_send {r : HttpResponse} {msg date : List UInt8} {v : Variant}
    (h : Measured r.message) : Measured (r.send msg true date v).1.message := by
  cases v with
  | write code => exact h.setContent.addHeader not_isContentLength_type
  | text | json => exact h.addHeader not_isContentLength_type

theorem measured_before {r : HttpResponse} {e : Earlier} (h : Measured r.message)
    (he : e.NoLength) : Measured (r.before e).message := by
  cases e with
  | send v msg date => exact measured_send h
  | writeDefault date => exact h
  | addHeader key value => exact h.addHeader he
  | setStatus code => exact h

theorem measured_foldl {r : HttpResponse} {hist : List Earlier} (h : Measured r.message)
    (hhist : ∀ e ∈ hist, e.NoLength) :
    Measured (hist.foldl HttpResponse.before r).message := by
  induction hist generalizing r with
  | nil => exact h
  | cons e hist ih =>
    rw [List.forall_mem_cons] at hhist
    exact ih (measured_before h hhist.1) hhist.2

theorem Used.measured {r : HttpResponse} (h : Used r) : Measured r.message := by
  obtain ⟨c, rsp, type, hist, hlength, rfl⟩ := h
  refine measured_foldl (Measured.setContent fun key value hget _ => ?_) hlength
  simp at hget

/-! ## The status -/

/-- The second word of a text: the status of a response. -/
def statusWord (text : List UInt8) : List UInt8 :=
  ((text.dropWhile (· ≠ 32)).drop 1).takeWhile (· ≠ 32)

theorem statusWord_append {line a w r rest : List UInt8} (hline : line = a ++ 32 :: (w ++ 32 :: r))
    (ha : 32 ∉ a) (hw : 32 ∉ w) : statusWord (line ++ rest) = w := by
  have hpass : ∀ {l : List UInt8}, 32 ∉ l → ∀ c ∈ l, decide (c ≠ 32) = true := by
    intro l hl c hc
    exact decide_eq_true fun he => hl (he ▸ hc)
  rw [statusWord, hline, List.append_assoc, List.dropWhile_append_of_pos (hpass ha), List.cons_append,
    List.dropWhile_cons_of_neg (by simp), List.drop_one, List.tail_cons, List.append_assoc,
    List.takeWhile_append_of_pos (hpass hw), List.cons_append, List.takeWhile_cons_of_neg (by simp),
    List.append_nil]

/-- The code that a response shows. -/
def shownCode (code : UInt32) : UInt32 := if Listed code then code else 400

theorem shownCode_eq_iff {code : UInt32} : shownCode code = code ↔ Listed code := by
  rw [shownCode]
  split
  · next h => exact iff_of_true rfl h
  · next h =>
    refine iff_of_false (fun heq => h ?_) h
    rw [← heq]
    decide

/-- The status of a response that `status_strings` gives to a code. -/
theorem statusWord_statusString {code : UInt32} {rest : List UInt8} :
    statusWord (statusString code ++ rest) = ascii (toString (shownCode code).toNat) := by
  have htable : (101 :: statusCodes).all fun code => decide (
      statusString code = (statusString code).take 8 ++
        32 :: (ascii (toString code.toNat) ++ 32 :: (statusString code).drop 13) ∧
      32 ∉ (statusString code).take 8 ∧ 32 ∉ ascii (toString code.toNat)) := by
    decide +kernel
  rw [shownCode]
  split
  · next h =>
    obtain ⟨hline, ha, hw⟩ :=
      of_decide_eq_true (List.all_eq_true.1 htable code (List.mem_cons.2 h))
    exact statusWord_append hline ha hw
  · next h =>
    obtain ⟨hline, ha, hw⟩ := of_decide_eq_true (List.all_eq_true.1 htable 400 (by decide))
    have h400 : statusString code = statusString 400 := statusString_of_not_listed h
    rw [h400]
    exact statusWord_append hline ha hw

theorem ascii_toString_inj {c c' : UInt32}
    (h : ascii (toString c.toNat) = ascii (toString c'.toNat)) : c = c' := by
  have hdecimal := congrArg Text.decimal h
  rw [Text.decimal_toString, Text.decimal_toString] at hdecimal
  exact UInt32.toNat_inj.1 hdecimal

/-! ## Sending -/

/-- The status that a call is to send: the one that is set, or else the given one or 200. -/
def HttpResponse.wanted (r : HttpResponse) : Variant → UInt32
  | .write code => if r.statusCode = 0 then code else r.statusCode
  | .text | .json => if r.statusCode = 0 then 200 else r.statusCode

/-- The status that a call sends. -/
def HttpResponse.written (r : HttpResponse) : Variant → UInt32
  | .write code => r.wanted (.write code)
  | .text | .json => r.statusCode

/-- What is promised of a call that sends `msg`. -/
structure SendsMessage (r : HttpResponse) (v : Variant) (msg date : List UInt8) : Prop where
  once : (r.send msg true date v).2 = [(r.send msg true date v).1.head date ++ crlf ++ msg]
  status : ∀ text ∈ (r.send msg true date v).2, statusWord text = ascii (toString (r.wanted v).toNat)
  length : ∀ h ∈ (r.send msg true date v).1.message.httpHeaders.written, IsContentLength h.1 →
    h.2 = ascii (toString msg.length)

/-- The call leaves `msg` as the content. -/
def HttpResponse.Carries (r : HttpResponse) (msg : List UInt8) : Variant → Prop
  | .write _ => msg ≠ [] ∨ r.body = []
  | .text | .json => r.body = msg

variable {r : HttpResponse} {v : Variant} {msg date : List UInt8}

theorem dump_eq_head : r.dump date = r.head date ++ crlf ++ r.body := rfl

theorem send_eq : (r.send msg true date v).2 = [(r.send msg true date v).1.dump date] := by
  cases v <;> rfl

theorem statusWord_dump :
    statusWord (r.dump date) = ascii (toString (shownCode r.statusCode).toNat) := by
  rw [dump_eq_head, HttpResponse.head]
  simp only [List.append_assoc]
  exact statusWord_statusString

theorem body_send : (r.send msg true date v).1.body = msg ↔ r.Carries msg v := by
  cases v with
  | write code =>
    have hbody : (r.send msg true date (.write code)).1.body =
        (r.message.setContent msg (ascii "txt")).content := rfl
    rw [hbody, Encodable.setContent, HttpResponse.Carries]
    split
    · next h =>
      subst h
      exact ⟨.inr, fun h => h.resolve_left (fun hne => hne rfl)⟩
    · next h => exact iff_of_true rfl (.inl h)
  | text | json => exact Iff.rfl

theorem shownCode_send :
    shownCode (r.send msg true date v).1.statusCode = r.wanted v ↔ Listed (r.written v) := by
  cases v with
  | write code => exact shownCode_eq_iff
  | text | json =>
    show shownCode r.statusCode = (if r.statusCode = 0 then 200 else r.statusCode) ↔
      Listed r.statusCode
    split
    · next h =>
      rw [h]
      decide
    · exact shownCode_eq_iff

/-- **When a message is sent**, on a response with any history: exactly when the content that the call
leaves is the message and the status that it leaves has a line of its own. -/
theorem sendsMessage_iff (h : Used r) (v : Variant) (msg date : List UInt8) :
    SendsMessage r v msg date ↔ r.Carries msg v ∧ Listed (r.written v) := by
  have hmeasured : Measured (r.send msg true date v).1.message := measured_send h.measured
  constructor
  · intro hsends
    have honce := hsends.once
    have hstatus := hsends.status ((r.send msg true date v).1.dump date)
      (by rw [send_eq]; exact List.mem_singleton_self _)
    rw [send_eq, dump_eq_head, List.cons.injEq, List.append_cancel_left_eq] at honce
    rw [statusWord_dump] at hstatus
    exact ⟨body_send.1 honce.1, shownCode_send.1 (ascii_toString_inj hstatus)⟩
  · intro ⟨hcarries, hlisted⟩
    have hbody : (r.send msg true date v).1.body = msg := body_send.2 hcarries
    constructor
    · rw [send_eq, dump_eq_head, hbody]
    · intro text htext
      rw [send_eq, List.mem_singleton] at htext
      rw [htext, statusWord_dump, shownCode_send.2 hlisted]
    · intro ⟨key, value⟩ hmem hkey
      rw [HttpResponse.body] at hbody
      rw [(hmeasured key value (Headers.mem_written.1 hmem).1 hkey).2.2, hbody]

/-- A message is written, and another one later. -/
def rewritten : List Earlier :=
  [.send (.write 200) (ascii "first") epoch, .addHeader (ascii "X-Trace") (ascii "7")]

theorem sendsMessage_iff_rewritten :
    SendsMessage (rewritten.foldl HttpResponse.before {}) (.write 500) (ascii "second") epoch := by
  have hkey : ¬ IsContentLength (ascii "X-Trace") := by decide
  have hlength : ∀ e ∈ rewritten, e.NoLength :=
    List.forall_mem_cons.2 ⟨trivial, List.forall_mem_cons.2 ⟨hkey, List.forall_mem_nil _⟩⟩
  exact (sendsMessage_iff ⟨0, [], [], rewritten, hlength, rfl⟩ _ _ _).2
    ⟨.inl (by decide), by decide⟩

/-- A fresh response sends a text as an empty page with the status 400. -/
theorem text_not_sent :
    ¬ ∀ (r : HttpResponse) (v : Variant) (msg date : List UInt8), Used r →
      SendsMessage r v msg date := by
  intro h
  have hsends := h {} .text (ascii "hi") epoch ⟨0, [], [], [], List.forall_mem_nil _, rfl⟩
  have hbody := hsends.once
  rw [send_eq, dump_eq_head, List.cons.injEq, List.append_cancel_left_eq] at hbody
  exact absurd hbody.1 (by decide)

end SNet.Http.Codec
