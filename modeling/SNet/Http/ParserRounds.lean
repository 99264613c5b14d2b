import SNet.Http.ParserLoops

/-!
# How far a round goes

A round of the loop of `http_parser_execute` stays inside of the buffer. What it does depends on the
bytes that it passes over: with more input it is the same, unless it came to the end of the buffer.
-/

namespace SNet.Http.Parser

variable {h : Fields} {r : Round} {ch : UInt8} {rest more : List UInt8}

/-! ## Inside of the buffer -/

theorem Round.headerField_snd_le : (r.headerField (ch :: rest)).2 ≤ rest.length := by
  unfold Round.headerField
  rw [fieldLoop_zero]
  dsimp only
  split
  case h_1 => exact Nat.sub_le_of_le_add (List.takeWhile_prefix _).length_le
  case h_2 heq =>
    have hlt := mt List.drop_eq_nil_of_le (by rw [heq]; exact List.cons_ne_nil _ _)
    exact Nat.le_of_lt_succ (Nat.lt_of_not_le hlt)

theorem Round.valueOut_snd (x : (Value × ValueEnd) × Nat) :
    x.1.2 = .all ∧ (r.valueOut x).2 = x.2 - 1 ∨ x.1.2 ≠ .all ∧ (r.valueOut x).2 = x.2 := by
  obtain ⟨⟨v, e⟩, n⟩ := x
  cases e with
  | all => exact .inl ⟨rfl, rfl⟩
  | eol c => exact .inr ⟨by simp, by unfold valueOut; dsimp only; split <;> rfl⟩
  | error e => exact .inr ⟨by simp, by cases e <;> rfl⟩

theorem Round.headerValue_snd_le : (r.headerValue (ch :: rest)).2 ≤ rest.length := by
  unfold Round.headerValue
  dsimp only
  generalize (⟨⟨r.fields.headerState, r.fields.index, false⟩, r.fields.flags,
    r.fields.contentLength⟩ : Value) = v
  obtain ⟨hall, hn⟩ | ⟨hall, hn⟩ := r.valueOut_snd
    (valueLoop r.fields.lenientHttpHeaders v 0 (ch :: rest)) <;>
  obtain ⟨hall', hn'⟩ | ⟨hall', hn'⟩ := valueLoop_end r.fields.lenientHttpHeaders v 0 (ch :: rest)
  · exact (hn.trans (congrArg (· - 1) hn')).le
  · exact absurd hall hall'
  · exact absurd hall' hall
  · exact hn.trans_le (Nat.le_of_lt_succ hn')

theorem Round.switch_snd_le : (r.switch ch rest).2 ≤ rest.length := by
  unfold Round.switch
  split
  case h_1 => exact headerField_snd_le
  case h_2 => exact headerValue_snd_le
  case h_3 =>
    unfold bodyIdentity
    dsimp only
    split <;> exact Nat.sub_le_of_le_add (Nat.min_le_right _ _)
  case h_4 => exact Nat.sub_le_of_le_add (Nat.min_le_right _ _)
  case h_5 => exact le_rfl
  case h_6 => exact Nat.zero_le _

theorem Fields.round_snd_le (h : Fields) (ch : UInt8) (rest : List UInt8) :
    (h.round ch rest).2 ≤ rest.length := by
  unfold round
  dsimp only
  split_ifs
  · exact Nat.zero_le _
  · exact Round.switch_snd_le
  · exact Round.switch_snd_le

/-! ## More input -/

/-- What `x` says of a round that passes over the whole buffer, and `y` of one that has more of it: there
is nothing left for the first, which failed at most behind the first byte, and the second goes on. -/
structure Cut (rest : List UInt8) (x y : Out × Nat) : Prop where
  short : x.2 = rest.length
  out : (∃ r, x.1 = .next r) ∨ rest ≠ [] ∧ ∃ r, x.1 = .error r
  long : rest.length < y.2

end SNet.Http.Parser
