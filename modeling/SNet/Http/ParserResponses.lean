import SNet.Http.ParserDocumented
import SNet.Http.ParserHeadLines

/-!
# Reading responses

`responseParser` is `http_parser` as `HttpResponse` uses it, which executes it once. Of a response
that ends with its head it reports the status code, once, whatever its headers are; so `parse` gets
it (`responseParser_decodes`).
-/

namespace SNet.Http.Parser

open Codec

variable {h h' : Fields} {s : State} {c : UInt8} {bs reason : List UInt8} {code k n v : Nat}

/-- `http_parser`, of one response. -/
def responseParser : ResponseParser where
  execute data :=
    let e := execute (.init .response) data
    (e.1.calls.map Prod.fst, e.2)

/-! ## A status line -/

/-- A parser of responses that has read a part of a status line. -/
def answered (s : State) (code n : Nat) : Fields :=
  { Fields.init .response with
    state := s, contentLength := ullongMax, httpMajor := 1, statusCode := code, nread := n }

/-- The version of a response. -/
theorem Consumes.responseVersion :
    Consumes (.init .response) none (ascii "HTTP/1.0 ") [.other .messageBegin]
      (answered .resFirstStatusCode 0 9) none := by
  have hround (rest : List UInt8) : (Fields.init .response).round (chr 'H') rest =
      (.next ⟨{ Fields.init .response with
        state := .resH, contentLength := ullongMax, nread := 1 },
          [.notify .messageBegin true], false⟩, 0) := rfl
  have hquiet : (ascii "TTP/1.0 ").foldlM Fields.quietly { Fields.init .response with
    state := .resH, contentLength := ullongMax, nread := 1 } =
      some (answered .resFirstStatusCode 0 9) := rfl
  have hrest := (Consumes.quietly (ascii "TTP/1.0 ") (o := none) hquiet (by decide)).1
  exact (Consumes.byte (o := none) hround rfl).trans hrest

/-- A digit. -/
theorem digit_ofNat (hk : k ≤ 9) :
    isNumber (.ofNat (48 + k)) ∧ (UInt8.ofNat (48 + k) - chr '0').toNat = k := by
  have hall : ∀ k : Fin 10, isNumber (.ofNat (48 + k.1)) ∧
      (UInt8.ofNat (48 + k.1) - chr '0').toNat = k.1 := by decide
  exact hall ⟨k, Nat.lt_succ_of_le hk⟩

theorem quietly_firstDigit (hk : k ≤ 9) :
    (answered .resFirstStatusCode 0 n).quietly (.ofNat (48 + k)) =
      some (answered .resStatusCode k (n + 1)) := by
  obtain ⟨hnumber, hvalue⟩ := digit_ofNat hk
  apply Fields.quietly_of rfl
  show Round.resFirstStatusCode _ _ = _
  unfold Round.resFirstStatusCode
  rw [if_pos hnumber, hvalue]
  rfl

theorem quietly_digit (code n : Nat) (hk : k ≤ 9) (hle : 10 * code + k ≤ 999) :
    (answered .resStatusCode code n).quietly (.ofNat (48 + k)) =
      some (answered .resStatusCode (10 * code + k) (n + 1)) := by
  obtain ⟨hnumber, hvalue⟩ := digit_ofNat hk
  have hcode : code * 10 + k = 10 * code + k := by rw [Nat.mul_comm]
  apply Fields.quietly_of rfl
  show Round.resStatusCode _ _ = _
  unfold Round.resStatusCode
  rw [if_pos hnumber, hvalue]
  dsimp only [Round.setStatusCode, answered]
  rw [hcode, if_neg (Nat.not_lt_of_le hle)]

/-- The code, and the blank behind it. -/
theorem Consumes.statusCode (hle : code ≤ 999) :
    Consumes (answered .resFirstStatusCode 0 9) none (codeDigits code ++ ascii " ") []
      (answered .resStatusStart code 13) none := by
  have hcode : 10 * (10 * (code / 100) + code / 10 % 10) + code % 10 = code := by omega
  have hfirst := quietly_firstDigit (k := code / 100) (n := 9) (by omega)
  have hsecond := quietly_digit (k := code / 10 % 10) (code / 100) 10 (by omega) (by omega)
  have hthird := quietly_digit (k := code % 10) (10 * (code / 100) + code / 10 % 10) 11 (by omega)
    (by omega)
  rw [hcode] at hthird
  have hblank : (answered .resStatusCode code 12).quietly (chr ' ') =
      some (answered .resStatusStart code 13) := Fields.quietly_of rfl rfl
  refine (Consumes.quietly (codeDigits code ++ ascii " ") (o := none) ?_
    (by show 9 + 4 ≤ maxHeaderSize; decide)).1
  show (answered .resFirstStatusCode 0 9).quietly _ >>= _ = _
  rw [hfirst]
  show (answered .resStatusCode _ 10).quietly _ >>= _ = _
  rw [hsecond]
  show (answered .resStatusCode _ 11).quietly _ >>= _ = _
  rw [hthird]
  show (answered .resStatusCode code 12).quietly (chr ' ') >>= _ = _
  rw [hblank]
  rfl

theorem foldlM_quietly_reason (code n : Nat) (hbs : NoEol bs) :
    bs.foldlM Fields.quietly (answered .resStatus code n) =
      some (answered .resStatus code (n + bs.length)) := by
  induction bs generalizing n with
  | nil => rfl
  | cons c bs ih =>
    obtain ⟨hc, hbs⟩ := noEol_cons hbs
    have hquiet : (answered .resStatus code n).quietly c =
        some (answered .resStatus code (n + 1)) := by
      apply Fields.quietly_of rfl
      show Round.resStatus _ _ = _
      unfold Round.resStatus
      rw [if_neg hc.1, if_neg hc.2]
      rfl
    rw [List.foldlM_cons, hquiet, List.length_cons, Nat.add_comm bs.length, ← Nat.add_assoc]
    exact ih (n + 1) hbs

/-- The reason, with which the code is reported. -/
theorem Consumes.statusReason (hne : reason ≠ []) (hreason : NoEol reason)
    (hn : n + reason.length + 1 ≤ maxHeaderSize) :
    Consumes (answered .resStatusStart code n) none (reason ++ [cr]) [.status code reason]
      (answered .resLineAlmostDone code (n + reason.length + 1)) none := by
  obtain ⟨c, bs, rfl⟩ := List.exists_cons_of_ne_nil hne
  obtain ⟨hc, hbs⟩ := noEol_cons hreason
  rw [List.length_cons] at hn ⊢
  have hstart (rest : List UInt8) : (answered .resStatusStart code n).round c rest =
      (.next ⟨answered .resStatus code (n + 1), [.mark .status], false⟩, 0) := by
    rw [Fields.round_byte _ c rest rfl (by show n < _; omega)]
    show (Round.resStatusStart _ c, 0) = _
    unfold Round.resStatusStart
    rw [if_neg (not_or.2 hc)]
    rfl
  have hend (rest : List UInt8) : (answered .resStatus code (n + 1 + bs.length)).round cr rest =
      (.next ⟨answered .resLineAlmostDone code (n + 1 + bs.length + 1),
        [.data .status false true], false⟩, 0) := by
    rw [Fields.round_byte _ cr rest rfl (by show n + 1 + bs.length < _; omega)]
    rfl
  have hfirst := Consumes.byte (o := none) hstart rfl
  have hrest := (Consumes.quietly bs (o := some (.status, [c]))
    (foldlM_quietly_reason code (n + 1) hbs)
    (by show n + 1 + bs.length ≤ _; omega)).1
  have htell : tells (answered .resLineAlmostDone code (n + 1 + bs.length + 1)) [] [cr]
      (some (.status, c :: bs)) [.data .status false true] =
        some (none, [.status code (c :: bs)]) := by
    rw [tells_data, List.append_nil]
    rfl
  have hlast := Consumes.byte (o := some (.status, c :: bs)) hend htell
  have hall := hfirst.trans (hrest.trans hlast)
  have hlength : n + 1 + bs.length + 1 = n + (bs.length + 1) + 1 := by omega
  rw [hlength] at hall
  exact hall

/-- Of a response that ends with its head the status code is reported once. -/
theorem responseParser_documented : responseParser.Documented where
  status code reason lines hstatus hlines := by
    have hlt : 13 + reason.length < 80 * 1024 := by
      have hlength : (statusLine code reason).length = 13 + reason.length := by
        rw [statusLine, List.length_append]
        rfl
      exact hlength ▸ hstatus.length_lt
    have hline := (Consumes.responseVersion.trans (Consumes.statusCode hstatus.code_le)).trans
      (Consumes.statusReason hstatus.reason_ne hstatus.noEol (by unfold maxHeaderSize; omega))
    have hhead : responseHead code reason lines = (ascii "HTTP/1.0 " ++
        (codeDigits code ++ ascii " ") ++ (reason ++ [cr])) ++ lf :: restOf lines := by
      simp only [responseHead, statusLine, restOf, List.append_assoc]
      rfl
    have hne : responseHead code reason lines ≠ [] := by
      rw [hhead]
      simp
    have hstart : Run.start (.init .response) = ⟨.init .response, marks none, [], false⟩ := by
      rw [Run.start]
      congr 1
    have hreported := hline.reports (InHead.behindCr rfl hlines)
    show ((execute (.init .response) (responseHead code reason lines)).1.calls.map
      Prod.fst).filterMap ResponseCallback.code? = [code]
    rw [execute_eq rfl hne, hstart, hhead]
    exact hreported.2

/-- **Status codes are parsed** as they stand in the head, and as this library prints them. -/
theorem responseParser_decodes (r : HttpResponse) :
    (∀ code reason lines, IsStatusLine code reason → (∀ l ∈ lines, l ≠ [] ∧ NoEol l) →
      (r.parse responseParser (responseHead code reason lines)).code = .ofNat code) ∧
    ∀ date c type hs, NoEol date → (∀ h ∈ hs, NoEol h.1 ∧ NoEol h.2) → 200 ≤ c.toNat →
      (r.parse responseParser ((builtResponse c [] type hs).dump date)).code = printedCode c := by
  constructor
  · intro code reason lines hstatus hlines
    exact code_parse responseParser_documented hstatus hlines
  · intro date c type hs hdate hhs hlow
    exact code_parse_built responseParser_documented hdate hhs hlow

theorem responseParser_decodes_notFound :
    (({} : HttpResponse).parse responseParser
      (responseHead 404 (ascii "Not Found") [ascii "Transfer-Encoding"])).code = 404 ∧
    (({} : HttpResponse).parse responseParser
      ((builtResponse 404 [] (ascii "txt") [(ascii "X-Trace", ascii "7")]).dump epoch)).code = 404 :=
  ⟨(responseParser_decodes {}).1 404 _ _ (by decide) (by decide),
    (responseParser_decodes {}).2 epoch 404 _ _ (by decide) (by decide) (by decide)⟩

end SNet.Http.Parser
