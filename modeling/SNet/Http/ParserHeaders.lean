import SNet.Http.ParserLoops
import SNet.Http.ParserSound
import SNet.Http.Request
import SNet.Library.Text

/-!
# What the parser reads in a header

The loop of `s_header_field` finds a length behind `Content-Length`, in letters of either case, and
behind nothing else (`nameState_contentLength`, `isContentLength_of`). The loop of `s_header_value`
reads the number there (`valuePlain_digits`), and of other values nothing that says where the body
ends (`valuePlain_free`).
-/

namespace SNet.Http.Parser

variable {m : Matcher} {ch : UInt8} {name pre : List UInt8}

/-! ## Tokens -/

/-- The two tables of tokens agree, and in lower case. -/
theorem token_table (c : UInt8) :
    (IsTokenChar c ↔ isToken c) ∧ (isToken c → token (token c) = token c ∧ token c ≠ chr ' ' ∧
      c ≠ chr ' ' ∧ (if 65 ≤ c ∧ c ≤ 90 then c + 32 else c) = token c) := by
  revert c
  exact forall_byte (by decide +kernel)

theorem isToken_of (hch : IsTokenChar ch) : isToken ch := (token_table ch).1.1 hch

theorem lower_of_isToken (hname : ∀ c ∈ name, isToken c) : Http.lower name = name.map token :=
  List.map_congr_left fun c hc => ((token_table c).2 (hname c hc)).2.2.2

/-- The loop sees tokens only, in lower case. -/
theorem fieldChar_token (hch : isToken ch) : m.fieldChar (token ch) = m.fieldChar ch := by
  obtain ⟨htoken, hspace, hspace', -⟩ := (token_table ch).2 hch
  unfold Matcher.fieldChar
  rw [htoken]
  cases m.headerState <;> simp only [ne_eq, hspace, hspace', not_false_eq_true, if_true]

theorem foldl_fieldChar (hname : ∀ c ∈ name, isToken c) :
    name.foldl Matcher.fieldChar m = (name.map token).foldl Matcher.fieldChar m := by
  induction name generalizing m with
  | nil => rfl
  | cons c name ih =>
    obtain ⟨hc, hname⟩ := List.forall_mem_cons.1 hname
    rw [List.map_cons, List.foldl_cons, List.foldl_cons, fieldChar_token hc, ih hname]

/-! ## What was seen -/

/-- What the loop has seen, where it may have seen a name that says something about the body. -/
def HeaderState.Seen (index : Nat) (pre : List UInt8) : HeaderState → Prop
  | .c => index = 0 ∧ pre = ascii "c"
  | .co => index = 1 ∧ pre = ascii "co"
  | .con => index = 2 ∧ pre = ascii "con"
  | .matchingContentLength => index + 1 < 14 ∧ pre = (ascii "content-length").take (index + 1)
  | .contentLength => pre = ascii "content-length"
  | .matchingTransferEncoding => index + 1 < 17 ∧ pre = (ascii "transfer-encoding").take (index + 1)
  | .transferEncoding => pre = ascii "transfer-encoding"
  | _ => True

/-- The next character of a name. -/
theorem expect_seen {name pre : List UInt8} (goal : HeaderState) (c : UInt8)
    (hlt : m.index + 1 < name.length) (hpre : pre = name.take (m.index + 1)) :
    (m.expect name goal .general c).headerState = .general ∨
      (m.expect name goal .general c).headerState = goal ∧ pre ++ [c] = name ∨
      (m.expect name goal .general c).headerState = m.headerState ∧
        (m.expect name goal .general c).index + 1 < name.length ∧
        pre ++ [c] = name.take ((m.expect name goal .general c).index + 1) := by
  have hget : name.getD (m.index + 1) 0 = name[m.index + 1] := List.getD_eq_getElem _ _ hlt
  unfold Matcher.expect
  dsimp only
  rw [hget]
  split
  · exact .inl rfl
  case isFalse hc =>
  obtain ⟨-, hc⟩ := not_or.1 hc
  have htake : pre ++ [c] = name.take (m.index + 1 + 1) := by
    rw [List.take_succ_eq_append_getElem hlt, hpre, not_not.1 hc]
  split
  case isTrue hlast =>
    refine .inr (.inl ⟨rfl, ?_⟩)
    rw [htake, List.take_of_length_le (by omega)]
  case isFalse hlast => exact .inr (.inr ⟨rfl, by dsimp only; omega, htake⟩)

/-- Names that say nothing about the body. -/
theorem expect_free {goal : HeaderState} {c : UInt8} {index : Nat}
    (hgoal : goal.Seen index pre) (hm : m.headerState.Seen index pre) :
    (m.expect name goal .general c).headerState.Seen index pre := by
  unfold Matcher.expect
  dsimp only
  split_ifs
  · trivial
  · exact hgoal
  · exact hm

theorem fieldChar_seen (hm : m.headerState.Seen m.index pre) (hch : isToken ch) :
    (m.fieldChar ch).headerState.Seen (m.fieldChar ch).index (pre ++ [token ch]) := by
  unfold Matcher.fieldChar
  dsimp only
  cases hs : m.headerState <;> rw [hs] at hm <;> dsimp only
  case general => rw [hs]; trivial
  case c =>
    split
    case isTrue hc => exact ⟨by rw [hm.1], by rw [hc, hm.2]; decide⟩
    case isFalse => trivial
  case co =>
    split
    case isTrue hc => exact ⟨by rw [hm.1], by rw [hc, hm.2]; decide⟩
    case isFalse => trivial
  case con =>
    split
    · trivial
    split
    case isTrue hc => exact ⟨by rw [hm.1]; decide, by rw [hc, hm.1, hm.2]; decide⟩
    case isFalse => trivial
  case matchingContentLength =>
    obtain h | ⟨h, hname⟩ | ⟨h, hname⟩ := expect_seen .contentLength (token ch) hm.1 hm.2
    · rw [h]; trivial
    · rw [h]; exact hname
    · rw [h, hs]; exact hname
  case matchingTransferEncoding =>
    obtain h | ⟨h, hname⟩ | ⟨h, hname⟩ :=
      expect_seen .transferEncoding (token ch) hm.1 hm.2
    · rw [h]; trivial
    · rw [h]; exact hname
    · rw [h, hs]; exact hname
  case matchingConnection | matchingProxyConnection | matchingUpgrade =>
    exact expect_free trivial (by rw [hs]; trivial)
  case connection | contentLength | transferEncoding | upgrade =>
    rw [if_pos ((token_table ch).2 hch).2.2.1]
    trivial
  all_goals trivial

theorem foldl_seen {rest : List UInt8} (hm : m.headerState.Seen m.index pre)
    (hrest : ∀ c ∈ rest, isToken c) :
    (rest.foldl Matcher.fieldChar m).headerState.Seen (rest.foldl Matcher.fieldChar m).index
      (pre ++ rest.map token) := by
  induction rest generalizing m pre with
  | nil => rwa [List.map_nil, List.append_nil]
  | cons c rest ih =>
    obtain ⟨hc, hrest⟩ := List.forall_mem_cons.1 hrest
    rw [List.foldl_cons, List.map_cons, List.append_cons]
    exact ih (fieldChar_seen hm hc) hrest

/-! ## A whole name -/

/-- The state in which the first character of a name leaves the parser. -/
def HeaderState.first (c : UInt8) : HeaderState :=
  if c = chr 'c' then .c
  else if c = chr 'p' then .matchingProxyConnection
  else if c = chr 't' then .matchingTransferEncoding
  else if c = chr 'u' then .matchingUpgrade
  else .general

theorem first_seen (c : UInt8) : (HeaderState.first c).Seen 0 [c] := by
  unfold HeaderState.first
  split_ifs with hc hp ht
  · exact ⟨rfl, by rw [hc]; decide⟩
  · trivial
  · exact ⟨by decide, by rw [ht]; decide⟩
  · trivial
  · trivial

/-- What is known of a name at its end. -/
def nameState (name : List UInt8) : HeaderState :=
  match name with
  | [] => .general
  | c :: rest => (rest.foldl Matcher.fieldChar ⟨.first (token c), 0, false⟩).headerState

theorem foldl_good {l : List UInt8} (hm : m.Good HeaderState.ofField) :
    (l.foldl Matcher.fieldChar m).Good HeaderState.ofField := by
  induction l generalizing m with
  | nil => exact hm
  | cons c l ih => exact ih hm.fieldChar

theorem nameState_ofField (name : List UInt8) : (nameState name).ofField := by
  cases name with
  | nil => trivial
  | cons c rest =>
    refine (foldl_good ⟨?_, Nat.zero_le _, rfl⟩).state
    unfold HeaderState.first
    split_ifs <;> trivial

theorem nameState_seen (hname : IsToken name) :
    ∃ index, (nameState name).Seen index (Http.lower name) := by
  cases name with
  | nil => exact absurd rfl hname.1
  | cons c rest =>
    have htoken : ∀ b ∈ c :: rest, isToken b := fun b hb => isToken_of (hname.2 b hb)
    rw [lower_of_isToken htoken]
    exact ⟨_, foldl_seen (m := ⟨.first (token c), 0, false⟩) (first_seen (token c))
      (List.forall_mem_cons.1 htoken).2⟩

theorem isContentLength_of (hname : IsToken name) (h : nameState name = .contentLength) :
    IsContentLength name := by
  obtain ⟨index, hseen⟩ := nameState_seen hname
  rw [h] at hseen
  exact hseen

theorem isTransferEncoding_of (hname : IsToken name) (h : nameState name = .transferEncoding) :
    IsTransferEncoding name := by
  obtain ⟨index, hseen⟩ := nameState_seen hname
  rw [h] at hseen
  exact hseen

theorem nameState_contentLength (hname : IsToken name) (h : IsContentLength name) :
    nameState name = .contentLength := by
  have htoken : ∀ c ∈ name, isToken c := fun c hc => isToken_of (hname.2 c hc)
  have hmap : name.map token = ascii "content-length" := (lower_of_isToken htoken).symm.trans h
  cases name with
  | nil => exact absurd rfl hname.1
  | cons c rest =>
    obtain ⟨hc, hrest⟩ := List.cons.inj (hmap.trans (by rfl : _ = chr 'c' :: ascii "ontent-length"))
    unfold nameState
    dsimp only
    rw [foldl_fieldChar (List.forall_mem_cons.1 htoken).2, hc, hrest]
    decide

/-! ## Values -/

variable {v v' : Value} {text rest ds : List UInt8} {lenient : Bool}

/-- A value in front of its end of line, which is no longer than a head may be. -/
theorem valueLoop_of_plain (h : valuePlain lenient v (text ++ [cr]) = ((v', .eol cr), text.length))
    (hlen : text.length + 1 < maxHeaderSize) :
    valueLoop lenient v 0 (text ++ cr :: rest) = ((v', .eol cr), text.length) := by
  have hshort : valueLoop lenient v 0 (text ++ [cr]) = ((v', .eol cr), text.length) := by
    refine ((valueLoop_eq_or (.inl rfl)).resolve_right fun hle => ?_).trans h
    have hend := valueLoop_end lenient v 0 (text ++ [cr])
    rw [List.length_append, List.length_singleton] at hend
    omega
  have happend := valueLoop_append lenient v 0 (text ++ [cr]) rest
  rw [hshort, List.append_assoc, List.singleton_append] at happend
  exact happend.resolve_right fun h => by simp at h

/-- The states of a value that says nothing about the body. -/
def HeaderState.free : HeaderState → Prop
  | .general | .matchingConnectionTokenStart | .matchingConnectionKeepAlive
  | .matchingConnectionClose | .matchingConnectionUpgrade | .matchingConnectionToken
  | .connectionKeepAlive | .connectionClose | .connectionUpgrade => True
  | _ => False

/-- The same is known about the body. -/
structure Flags.SameBody (f g : Flags) : Prop where
  chunked : f.chunked = g.chunked
  trailing : f.trailing = g.trailing
  skipbody : f.skipbody = g.skipbody
  contentlength : f.contentlength = g.contentlength

theorem Flags.SameBody.refl (f : Flags) : f.SameBody f := ⟨rfl, rfl, rfl, rfl⟩

theorem Flags.SameBody.trans {f g k : Flags} (hf : f.SameBody g) (hg : g.SameBody k) :
    f.SameBody k :=
  ⟨hf.1.trans hg.1, hf.2.trans hg.2, hf.3.trans hg.3, hf.4.trans hg.4⟩

/-- A value that says nothing about the body, behind another state of the loop. -/
structure Value.Free (v v' : Value) : Prop where
  state : v'.headerState.free
  contentLength : v'.contentLength = v.contentLength
  flags : v'.flags.SameBody v.flags

theorem Value.Free.setState {s : HeaderState} (hs : s.free) : v.Free (v.setState s) :=
  ⟨hs, rfl, .refl _⟩

theorem Value.Free.expect {goal fallback : HeaderState} {c : UInt8} (hgoal : goal.free)
    (hfallback : fallback.free) (hv : v.headerState.free) :
    v.Free (v.expect name goal fallback c) := by
  refine ⟨?_, rfl, .refl _⟩
  unfold Value.expect Matcher.expect
  dsimp only
  split_ifs
  · exact hfallback
  · exact hgoal
  · exact hv

theorem Value.Free.afterToken {f : Flags} (hf : f.SameBody v.flags) (hv : v.headerState.free) :
    v.Free (v.afterToken ch f) := by
  unfold Value.afterToken
  split_ifs
  · exact ⟨trivial, rfl, hf⟩
  · exact ⟨trivial, rfl, .refl _⟩
  · exact ⟨hv, rfl, .refl _⟩

theorem Value.char_free (ch : UInt8) (hv : v.headerState.free) :
    ∃ v', v.char ch = .ok v' ∧ v.Free v' := by
  have hsame : v.Free v := ⟨hv, rfl, .refl _⟩
  unfold Value.char
  cases hs : v.headerState <;> dsimp only
  case general => exact ⟨_, rfl, hsame⟩
  case matchingConnectionTokenStart =>
    refine ⟨_, rfl, ?_⟩
    split_ifs
    any_goals exact hsame
    all_goals exact .setState trivial
  case matchingConnectionKeepAlive | matchingConnectionClose | matchingConnectionUpgrade =>
    exact ⟨_, rfl, .expect trivial trivial hv⟩
  case matchingConnectionToken =>
    refine ⟨_, rfl, ?_⟩
    split
    · exact ⟨trivial, rfl, .refl _⟩
    · exact hsame
  case connectionKeepAlive | connectionClose | connectionUpgrade =>
    exact ⟨_, rfl, .afterToken ⟨rfl, rfl, rfl, rfl⟩ hv⟩
  all_goals rw [hs] at hv; exact hv.elim

theorem valuePlain_free (lenient : Bool) (hv : v.headerState.free)
    (htext : ∀ c ∈ text, isText lenient c) :
    ∃ v', valuePlain lenient v (text ++ [cr]) = ((v', .eol cr), text.length) ∧ v.Free v' := by
  induction text generalizing v with
  | nil => exact ⟨v, if_pos (.inl rfl), hv, rfl, .refl _⟩
  | cons c text ih =>
    obtain ⟨hc, htext⟩ := List.forall_mem_cons.1 htext
    obtain ⟨v₁, hchar, hfree⟩ := Value.char_free c hv
    obtain ⟨v', hplain, hfree'⟩ := ih hfree.state htext
    simp only [isText, Bool.and_eq_true, decide_eq_true_eq] at hc
    refine ⟨v', ?_, hfree'.state, hfree'.contentLength.trans hfree.contentLength,
      hfree'.flags.trans hfree.flags⟩
    rw [List.cons_append, valuePlain, if_neg (not_or.2 hc.1), if_neg (by simp [hc.2]), hchar]
    dsimp only
    rw [hplain]
    rfl

theorem digit_table (c : UInt8) : Text.isDigit c → isText false c ∧ ¬ isBlank c ∧ c ≠ chr ' ' ∧
    isNumber c ∧ (c - chr '0').toNat = c.toNat - 48 := by
  revert c
  exact forall_byte (by decide +kernel)

theorem isText_of_strict (hch : isText false ch) : isText lenient ch := by
  simp only [isText, isValueChar, Bool.and_eq_true, Bool.or_eq_true, Bool.false_eq_true,
    false_or] at hch ⊢
  exact ⟨hch.1, .inr hch.2⟩

theorem le_foldl_digits (ds : List UInt8) (n : Nat) :
    n ≤ ds.foldl (fun n d => 10 * n + (d.toNat - 48)) n := by
  induction ds generalizing n with
  | nil => exact le_rfl
  | cons d ds ih =>
    have hle : n ≤ 10 * n + (d.toNat - 48) := by omega
    exact hle.trans (ih _)

/-- Digits behind others of a length, which is not too large. -/
theorem valuePlain_digits (lenient : Bool) (hv : v.headerState = .contentLengthNum)
    (hds : ∀ d ∈ ds, Text.isDigit d)
    (hle : ds.foldl (fun n d => 10 * n + (d.toNat - 48)) v.contentLength + 10 ≤ ullongMax) :
    valuePlain lenient v (ds ++ [cr]) =
      (({ v with
          contentLength := ds.foldl (fun n d => 10 * n + (d.toNat - 48)) v.contentLength }, .eol cr),
        ds.length) := by
  induction ds generalizing v with
  | nil => exact if_pos (.inl rfl)
  | cons d ds ih =>
    obtain ⟨hd, hds⟩ := List.forall_mem_cons.1 hds
    obtain ⟨htext, -, hspace, hnumber, hvalue⟩ := digit_table d hd
    have htext : isText lenient d := isText_of_strict htext
    simp only [isText, Bool.and_eq_true, decide_eq_true_eq] at htext
    have hfits : ¬ (ullongMax - 10) / 10 < v.contentLength := by
      have := le_foldl_digits ds (10 * v.contentLength + (d.toNat - 48))
      rw [List.foldl_cons] at hle
      omega
    have hchar : v.char d = .ok { v with contentLength := 10 * v.contentLength + (d.toNat - 48) } := by
      unfold Value.char
      rw [hv]
      dsimp only
      unfold Value.contentDigit
      rw [if_neg hspace, if_neg (by simp [hnumber]), if_neg hfits, hvalue, Nat.mul_comm]
    rw [List.cons_append, valuePlain, if_neg (not_or.2 htext.1), if_neg (by simp [htext.2]), hchar]
    dsimp only
    rw [ih (v := { v with contentLength := 10 * v.contentLength + (d.toNat - 48) }) hv hds hle]
    rfl

end SNet.Http.Parser
