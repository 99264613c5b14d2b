import Mathlib.Data.List.TakeWhile
import Mathlib.Order.Basic
import SNet.Http.ParserExecute

/-!
# The loops over headers

Behind the first character that tells nothing more about a header the loops of `s_header_field` and
`s_header_value` run ahead. `fieldLoop_eq` and `valueLoop_eq_or` say that this changes nothing, but
for values that are too long for a head.
-/

namespace SNet.Http.Parser

variable {m : Matcher} {v : Value} {l rest more : List UInt8} {skip n : Nat} {lenient : Bool}
  {ch : UInt8}

/-! ## Names -/

/-- A character of a name. -/
def isToken (c : UInt8) : Bool := token c ≠ 0

theorem fieldRun_le : fieldRun l ≤ (l.takeWhile isToken).length := by
  unfold fieldRun
  rw [← List.take_takeWhile]
  exact List.length_take_le' _ _

theorem Matcher.fieldChar_general (hm : m.headerState = .general) : m.fieldChar ch = m := by
  unfold fieldChar
  rw [hm]

/-- The loop is the plain one, which stops at the first character that does not belong to a name. -/
theorem fieldLoop_eq (hskip : skip = 0 ∨ m.headerState = .general ∧
      skip ≤ (l.takeWhile isToken).length) :
    fieldLoop m skip l =
      ((l.takeWhile isToken).foldl Matcher.fieldChar m, (l.takeWhile isToken).length) := by
  induction l generalizing m skip with
  | nil => cases skip <;> rfl
  | cons ch l ih =>
    cases skip with
    | succ skip =>
      obtain ⟨hm, hle⟩ := hskip.resolve_left (Nat.succ_ne_zero _)
      have hch : isToken ch := by
        by_contra hch
        rw [List.takeWhile_cons_of_neg hch] at hle
        exact absurd hle (Nat.not_succ_le_zero _)
      rw [List.takeWhile_cons_of_pos hch] at hle ⊢
      rw [fieldLoop, ih (.inr ⟨hm, Nat.le_of_succ_le_succ hle⟩), List.foldl_cons,
        Matcher.fieldChar_general hm]
      rfl
    | zero =>
      unfold fieldLoop
      split
      case isTrue hch => rw [List.takeWhile_cons_of_neg (by simp [isToken, hch])]; rfl
      case isFalse hch =>
        rw [List.takeWhile_cons_of_pos (by simp [isToken, hch])]
        dsimp only
        rw [ih]
        · rfl
        split
        case isTrue hm => exact .inr ⟨by rw [Matcher.fieldChar_general hm, hm], fieldRun_le⟩
        case isFalse => exact .inl rfl

theorem fieldLoop_zero (m : Matcher) (l : List UInt8) :
    fieldLoop m 0 l =
      ((l.takeWhile isToken).foldl Matcher.fieldChar m, (l.takeWhile isToken).length) :=
  fieldLoop_eq (.inl rfl)

/-! ## Values -/

/-- The loop of `s_header_value` when it does not run ahead. -/
def valuePlain (lenient : Bool) (v : Value) : List UInt8 → (Value × ValueEnd) × Nat
  | [] => ((v, .all), 0)
  | ch :: rest =>
    if ch = cr ∨ ch = lf then ((v, .eol ch), 0)
    else if !isValueChar lenient ch then ((v, .error .invalidHeaderToken), 0)
    else
      match v.char ch with
      | .error v => ((v, .error .invalidContentLength), 0)
      | .ok v => (valuePlain lenient v rest).map id (· + 1)

theorem Value.char_general (hv : v.headerState = .general) : v.char ch = .ok v := by
  unfold char
  rw [hv]

theorem valuePlain_cons (hv : v.headerState = .general) (hch : isText lenient ch) :
    valuePlain lenient v (ch :: l) = (valuePlain lenient v l).map id (· + 1) := by
  simp only [isText, Bool.and_eq_true, decide_eq_true_eq] at hch
  rw [valuePlain, if_neg (not_or.2 hch.1), if_neg (by simp [hch.2]), Value.char_general hv]

/-- Behind text where nothing is looked for any more. -/
theorem valuePlain_append (hv : v.headerState = .general) (hl : ∀ c ∈ l, isText lenient c) :
    valuePlain lenient v (l ++ rest) = (valuePlain lenient v rest).map id (l.length + ·) := by
  induction l with
  | nil => simp [Prod.map]
  | cons ch l ih =>
    obtain ⟨hch, hl⟩ := List.forall_mem_cons.1 hl
    rw [List.cons_append, valuePlain_cons hv hch, ih hl, Prod.map_map]
    congr 1
    funext k
    simp only [Function.comp_apply, List.length_cons]
    omega

/-- How the inner loop ends behind the text that it passes over: with the buffer, at an end of line, at
another character that is no text, or where it has seen as much as a head may have. -/
inductive ValueRun (lenient : Bool) (run rest : List UInt8) : Nat ⊕ Nat → Prop
  | all : rest = [] → ValueRun lenient run rest (.inr (run.length - 1))
  | eol (c rest') : rest = c :: rest' → c = cr ∨ c = lf →
    ValueRun lenient run rest (.inr (run.length - 1))
  | error (c rest') : rest = c :: rest' → ¬ (c = cr ∨ c = lf) → isValueChar lenient c = false →
    ValueRun lenient run rest (.inl run.length)
  | long : rest ≠ [] → run.length = maxHeaderSize → ValueRun lenient run rest (.inr run.length)

theorem ValueRun.run_ne_nil {run : List UInt8} {res : Nat ⊕ Nat}
    (hr : ValueRun lenient run rest res) (hrest : rest = ch :: l) (hch : isText lenient ch) :
    run ≠ [] := by
  simp only [isText, Bool.and_eq_true, decide_eq_true_eq] at hch
  rintro rfl
  cases hr with
  | all h => rw [h] at hrest; cases hrest
  | eol c rest' h heol =>
    obtain ⟨rfl, -⟩ := List.cons.inj (h.symm.trans hrest)
    exact not_or.2 hch.1 heol
  | error c rest' h hc hvalid =>
    obtain ⟨rfl, -⟩ := List.cons.inj (h.symm.trans hrest)
    simp [hvalid] at hch
  | long h hlength => exact absurd hlength (by decide)

theorem exists_valueRun (lenient : Bool) (l : List UInt8) :
    ∃ run rest, l = run ++ rest ∧ (∀ c ∈ run, isText lenient c) ∧
      ValueRun lenient run rest (valueRun lenient l) := by
  have hl := List.take_append_drop maxHeaderSize l
  have hlength : (l.take maxHeaderSize).length = min maxHeaderSize l.length := List.length_take
  unfold valueRun
  dsimp only
  generalize l.take maxHeaderSize = window at hl hlength ⊢
  have hwindow := @List.takeWhile_append_dropWhile _ (isText lenient) window
  have hdrop : window.drop (window.takeWhile (isText lenient)).length =
      window.dropWhile (isText lenient) := by
    conv_lhs => enter [2]; rw [← hwindow]
    exact List.drop_left
  refine ⟨window.takeWhile (isText lenient),
    window.dropWhile (isText lenient) ++ l.drop maxHeaderSize, ?_,
    fun c hc => List.mem_takeWhile_imp hc, ?_⟩
  · rw [← List.append_assoc, hwindow, hl]
  rw [hdrop]
  cases htail : window.dropWhile (isText lenient) with
  | cons c tail =>
    dsimp only
    have hc : ¬ isText lenient c := by
      have := List.head?_dropWhile_not (isText lenient) window
      rw [htail] at this
      simpa using this
    split
    case isTrue heol => exact .eol c _ rfl heol
    case isFalse heol =>
      refine .error c _ rfl heol ?_
      simpa [isText, not_or.1 heol] using hc
  | nil =>
    rw [htail, List.append_nil] at hwindow
    dsimp only
    rw [hwindow]
    split
    case isTrue heq =>
      exact .all (List.drop_eq_nil_of_le (by omega))
    case isFalse hne =>
      refine .long ?_ (by omega)
      rw [List.nil_append, Ne, List.drop_eq_nil_iff]
      omega

theorem valueLoop_succ : valueLoop lenient v (skip + 1) (ch :: l) =
    (valueLoop lenient v skip l).map id (· + 1) :=
  rfl

theorem valueLoop_snd_ge : min skip l.length ≤ (valueLoop lenient v skip l).2 := by
  induction l generalizing skip with
  | nil => simp
  | cons ch l ih =>
    cases skip with
    | zero => simp
    | succ skip =>
      rw [valueLoop_succ, List.length_cons, Nat.add_min_add_right]
      exact Nat.add_le_add_right ih 1

/-- The loop is the plain one, or the value is longer than a head may be. -/
theorem valueLoop_eq_or (hskip : skip = 0 ∨ v.headerState = .general ∧
      ∀ c ∈ l.take skip, isText lenient c) :
    valueLoop lenient v skip l = valuePlain lenient v l ∨
      maxHeaderSize ≤ (valueLoop lenient v skip l).2 := by
  induction l generalizing v skip with
  | nil => cases skip <;> exact .inl rfl
  | cons ch l ih =>
    have hmap {v' : Value} {skip' : Nat} {x : (Value × ValueEnd) × Nat}
        (h : valueLoop lenient v' skip' l = x ∨ maxHeaderSize ≤ (valueLoop lenient v' skip' l).2) :
        (valueLoop lenient v' skip' l).map id (· + 1) = x.map id (· + 1) ∨
          maxHeaderSize ≤ ((valueLoop lenient v' skip' l).map id (· + 1)).2 :=
      h.imp (congrArg _) fun h => h.trans (Nat.le_succ _)
    cases skip with
    | succ skip =>
      obtain ⟨hv, htext⟩ := hskip.resolve_left (Nat.succ_ne_zero _)
      rw [List.take_succ_cons, List.forall_mem_cons] at htext
      rw [valueLoop_succ, valuePlain_cons hv htext.1]
      exact hmap (ih (.inr ⟨hv, htext.2⟩))
    | zero =>
      unfold valueLoop
      split
      case isTrue heol => exact .inl (by rw [valuePlain, if_pos heol])
      case isFalse heol =>
      split
      case isTrue hch => exact .inl (by rw [valuePlain, if_neg heol, if_pos hch])
      case isFalse hch =>
      split
      case isFalse =>
        rw [valuePlain, if_neg heol, if_neg hch]
        cases hchar : v.char ch with
        | error v' => exact .inl rfl
        | ok v' => exact hmap (ih (.inl rfl))
      case isTrue hv =>
        have htext : isText lenient ch := by simpa [isText, not_or.1 heol] using hch
        obtain ⟨run, rest, hl, hrun, hr⟩ := exists_valueRun lenient (ch :: l)
        generalize valueRun lenient (ch :: l) = res at hr ⊢
        cases run with
        | nil => exact absurd rfl (hr.run_ne_nil (by rw [← List.nil_append rest, ← hl]) htext)
        | cons c run =>
          obtain ⟨rfl, rfl⟩ := List.cons.inj (hl.trans List.cons_append)
          have hrun := (List.forall_mem_cons.1 hrun).2
          have hahead : valueLoop lenient v run.length (run ++ rest) =
                valuePlain lenient v (run ++ rest) ∨
              maxHeaderSize ≤ (valueLoop lenient v run.length (run ++ rest)).2 :=
            ih (.inr ⟨hv, by rwa [List.take_left]⟩)
          rw [valuePlain_cons hv htext]
          cases hr with
          | all | eol => exact hmap hahead
          | error c rest' hrest hc hvalid =>
            rw [hrest, valuePlain_append hv hrun, valuePlain, if_neg hc, if_pos (by simp [hvalid])]
            exact .inl rfl
          | long hrest hlength =>
            refine .inr ((le_min ?_ ?_).trans (valueLoop_snd_ge.trans (Nat.le_succ _)))
            · exact hlength.ge
            · have := List.length_pos_iff.2 hrest
              rw [List.length_cons] at hlength
              rw [List.length_append]
              omega

/-! ## More input -/

theorem ValueRun.length_le {run : List UInt8} {res : Nat ⊕ Nat} (hr : ValueRun lenient run rest res)
    (hl : l ++ more = run ++ rest) (htext : ∀ c ∈ l, isText lenient c)
    (hle : l.length ≤ maxHeaderSize) : l.length ≤ run.length := by
  by_contra! hlt
  have hnot {c : UInt8} {rest' : List UInt8} (hrest : rest = c :: rest') : isText lenient c := by
    refine htext c ?_
    have : (l ++ more)[run.length]? = some c := by rw [hl, hrest]; simp
    rw [List.getElem?_append_left hlt] at this
    exact List.mem_of_getElem? this
  cases hr with
  | all hrest =>
    rw [hrest, List.append_nil] at hl
    rw [← hl, List.length_append] at hlt
    omega
  | eol c rest' hrest hc =>
    have := hnot hrest
    simp only [isText, Bool.and_eq_true, decide_eq_true_eq] at this
    exact not_or.2 this.1 hc
  | error c rest' hrest hc hvalid =>
    have := hnot hrest
    simp [isText, hvalid] at this
  | long hrest hlength => omega

theorem valueRun_of_text (htext : ∀ c ∈ l.take maxHeaderSize, isText lenient c) :
    valueRun lenient l = .inr (if l.length ≤ maxHeaderSize then l.length - 1 else maxHeaderSize) := by
  have hall : (l.take maxHeaderSize).takeWhile (isText lenient) = l.take maxHeaderSize :=
    List.takeWhile_eq_self_iff.2 htext
  have hlength : (l.take maxHeaderSize).length = min maxHeaderSize l.length := List.length_take
  unfold valueRun
  dsimp only
  rw [hall, List.drop_length, hlength]
  rcases Nat.lt_or_ge maxHeaderSize l.length with hlt | hle
  · rw [Nat.min_eq_left hlt.le, if_neg hlt.not_ge, if_neg hlt.ne]
  · rw [Nat.min_eq_right hle, if_pos hle, if_pos rfl]

/-- Where the text ends in what may be looked at, more input makes no difference. -/
theorem valueRun_append_of_not (htext : ¬ ∀ c ∈ l.take maxHeaderSize, isText lenient c) :
    valueRun lenient (l ++ more) = valueRun lenient l := by
  have hlt : ((l.take maxHeaderSize).takeWhile (isText lenient)).length <
      (l.take maxHeaderSize).length :=
    lt_of_le_of_ne (List.takeWhile_prefix _).length_le fun h =>
      htext (List.takeWhile_eq_self_iff.1 ((List.takeWhile_prefix _).eq_of_length h))
  unfold valueRun
  dsimp only
  rw [List.take_append]
  generalize l.take maxHeaderSize = window at hlt ⊢
  generalize more.take (maxHeaderSize - l.length) = extra
  have hrun : (window ++ extra).takeWhile (isText lenient) = window.takeWhile (isText lenient) := by
    rw [List.takeWhile_append, if_neg hlt.ne]
  obtain ⟨c, tail, htail⟩ := List.exists_cons_of_ne_nil (mt List.drop_eq_nil_iff.1 hlt.not_ge)
  have htail' : (window ++ extra).drop (window.takeWhile (isText lenient)).length =
      c :: (tail ++ extra) := by
    rw [List.drop_append_of_le_length hlt.le, htail]
    rfl
  rw [hrun, htail, htail']

theorem valueRun_append (lenient : Bool) (l more : List UInt8) :
    valueRun lenient (l ++ more) = valueRun lenient l ∨
      valueRun lenient l = .inr (l.length - 1) ∧
        (∀ k, valueRun lenient (l ++ more) = .inl k → l.length ≤ k) ∧
          ∀ k, valueRun lenient (l ++ more) = .inr k → l.length - 1 ≤ k := by
  by_cases htext : ∀ c ∈ l.take maxHeaderSize, isText lenient c
  · rcases Nat.lt_or_ge maxHeaderSize l.length with hlt | hle
    · left
      have htake : (l ++ more).take maxHeaderSize = l.take maxHeaderSize :=
        List.take_append_of_le_length hlt.le
      rw [valueRun_of_text htext, valueRun_of_text (by rwa [htake]), if_neg hlt.not_ge, if_neg]
      rw [List.length_append]
      omega
    · right
      rw [valueRun_of_text htext, if_pos hle]
      rw [List.take_of_length_le hle] at htext
      obtain ⟨run, rest, hl, -, hr⟩ := exists_valueRun lenient (l ++ more)
      have hrun := hr.length_le hl htext hle
      generalize valueRun lenient (l ++ more) = res at hr ⊢
      refine ⟨rfl, ?_, ?_⟩ <;> rintro k rfl <;> cases hr <;> omega
  · exact .inl (valueRun_append_of_not htext)

/-- The loop reaches the end of the buffer, or it stops before. -/
theorem valueLoop_end (lenient : Bool) (v : Value) (skip : Nat) (l : List UInt8) :
    (valueLoop lenient v skip l).1.2 = .all ∧ (valueLoop lenient v skip l).2 = l.length ∨
      (valueLoop lenient v skip l).1.2 ≠ .all ∧ (valueLoop lenient v skip l).2 < l.length := by
  induction l generalizing v skip with
  | nil => cases skip <;> exact .inl ⟨rfl, rfl⟩
  | cons ch l ih =>
    have hmap {v' : Value} {skip' : Nat} :
        ((valueLoop lenient v' skip' l).map id (· + 1)).1.2 = .all ∧
            ((valueLoop lenient v' skip' l).map id (· + 1)).2 = (ch :: l).length ∨
          ((valueLoop lenient v' skip' l).map id (· + 1)).1.2 ≠ .all ∧
            ((valueLoop lenient v' skip' l).map id (· + 1)).2 < (ch :: l).length :=
      (ih v' skip').imp (And.imp_right (congrArg (· + 1))) (And.imp_right Nat.succ_lt_succ)
    cases skip with
    | succ skip => exact hmap
    | zero =>
      unfold valueLoop
      split
      · exact .inr ⟨by simp, Nat.zero_lt_succ _⟩
      split
      · exact .inr ⟨by simp, Nat.zero_lt_succ _⟩
      split
      · obtain ⟨run, rest, hl, -, hr⟩ := exists_valueRun lenient (ch :: l)
        generalize valueRun lenient (ch :: l) = res at hr ⊢
        cases hr with
        | all | eol | long => exact hmap
        | error c rest' hrest =>
          refine .inr ⟨by simp, ?_⟩
          rw [hl, hrest, List.length_append]
          exact Nat.lt_add_of_pos_right (Nat.zero_lt_succ _)
      · split
        · exact .inr ⟨by simp, Nat.zero_lt_succ _⟩
        · exact hmap

theorem valueLoop_of_length_le (hle : l.length ≤ skip) :
    valueLoop lenient v skip l = ((v, .all), l.length) := by
  induction l generalizing skip with
  | nil => cases skip <;> rfl
  | cons ch l ih =>
    cases skip with
    | zero => exact absurd hle (Nat.not_succ_le_zero _)
    | succ skip => rw [valueLoop_succ, ih (Nat.le_of_succ_le_succ hle)]; rfl

/-- More input makes no difference to a loop that stops; one that does not goes at least as far. -/
theorem valueLoop_append (lenient : Bool) (v : Value) (skip : Nat) (l more : List UInt8) :
    valueLoop lenient v skip (l ++ more) = valueLoop lenient v skip l ∨
      (valueLoop lenient v skip l).1.2 = .all ∧
        l.length ≤ (valueLoop lenient v skip (l ++ more)).2 := by
  induction l generalizing v skip with
  | nil => cases skip <;> exact .inr ⟨rfl, Nat.zero_le _⟩
  | cons ch l ih =>
    have hmap {v' : Value} {skip' : Nat} :
        (valueLoop lenient v' skip' (l ++ more)).map id (· + 1) =
            (valueLoop lenient v' skip' l).map id (· + 1) ∨
          ((valueLoop lenient v' skip' l).map id (· + 1)).1.2 = .all ∧
            (ch :: l).length ≤ ((valueLoop lenient v' skip' (l ++ more)).map id (· + 1)).2 :=
      (ih v' skip').imp (congrArg _) (And.imp_right Nat.succ_le_succ)
    cases skip with
    | succ skip => exact hmap
    | zero =>
      have happend := valueRun_append lenient (ch :: l) more
      rw [List.cons_append] at happend ⊢
      unfold valueLoop
      split
      · exact .inl rfl
      split
      · exact .inl rfl
      split
      · obtain heq | ⟨hall, herror, hok⟩ := happend
        · rw [heq]
          cases valueRun lenient (ch :: l) with
          | inl n => exact .inl rfl
          | inr n => exact hmap
        · rw [hall]
          have hend : valueLoop lenient v ((ch :: l).length - 1) l = ((v, .all), l.length) :=
            valueLoop_of_length_le le_rfl
          dsimp only
          rw [hend]
          refine .inr ⟨rfl, ?_⟩
          cases hrun : valueRun lenient (ch :: (l ++ more)) with
          | inl k => exact herror k hrun
          | inr k =>
            have hk : l.length ≤ k := hok k hrun
            refine Nat.succ_le_succ (Nat.le_trans (le_min hk ?_) valueLoop_snd_ge)
            simp
      · cases v.char ch with
        | error v' => exact .inl rfl
        | ok v' => exact hmap

end SNet.Http.Parser
