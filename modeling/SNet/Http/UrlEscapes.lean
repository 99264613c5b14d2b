import Mathlib.Data.List.GetD
import SNet.Http.Url

/-!
# What is written is read back

Each of the encodings writes characters below 128, and no others, as texts that the decoding on the
other side reads as them. `Coding` says so of a character, with the characters that the text is made
of; the rule `encodeChars_induct` carries it over to ranges.
-/

namespace SNet.Http.Url

variable {plain : UInt8 → UInt8} {special : UInt8 → Option (List UInt8)} {mask c : UInt8}
  {s t text rest avoid : List UInt8}

theorem map_eq_ok {α β : Type} {f : α → β} {x : Except UrlError α} {b : β} :
    x.map f = .ok b ↔ ∃ a, x = .ok a ∧ f a = b := by
  cases x with
  | error e => exact iff_of_false (fun h => by cases h) fun ⟨_, h, _⟩ => by cases h
  | ok a => exact ⟨fun h => ⟨a, rfl, Except.ok.inj h⟩, fun ⟨_, h, hb⟩ => by cases h; rw [← hb]; rfl⟩

theorem bind_eq_ok {α β : Type} {f : α → Except UrlError β} {x : Except UrlError α} {b : β} :
    x >>= f = .ok b ↔ ∃ a, x = .ok a ∧ f a = .ok b := by
  cases x with
  | error e => exact iff_of_false (fun h => by cases h) fun ⟨_, h, _⟩ => by cases h
  | ok a => exact ⟨fun h => ⟨a, rfl, h⟩, fun ⟨_, h, hb⟩ => by cases h; exact hb⟩

/-! ## Places -/

section Places

variable {q : List UInt8}

theorem eq_of_mem_head? {d : UInt8} (h : d ∈ (c :: s).head?) : d = c :=
  (Option.mem_some_iff.1 h).symm

theorem takeWhile_append_rest {p : UInt8 → Bool} (hs : ∀ c ∈ s, p c = true)
    (hrest : ∀ c ∈ rest.head?, p c = false) :
    (s ++ rest).takeWhile p = s ∧ (s ++ rest).dropWhile p = rest := by
  rw [List.takeWhile_append_of_pos hs, List.dropWhile_append_of_pos hs]
  cases rest with
  | nil => exact ⟨List.append_nil s, rfl⟩
  | cons c rest =>
    have hc : ¬ p c = true := by
      rw [hrest c rfl]
      exact Bool.false_ne_true
    rw [List.takeWhile_cons_of_neg hc, List.dropWhile_cons_of_neg hc]
    exact ⟨List.append_nil s, rfl⟩

theorem findFirstOf_append (hs : ∀ c ∈ s, c ∉ q) (hrest : ∀ c ∈ rest.head?, c ∈ q) :
    findFirstOf (s ++ rest) q = (s, rest) := by
  have h := @takeWhile_append_rest s rest (!q.contains ·)
    (fun c hc => by simpa using hs c hc) (fun c hc => by simpa using hrest c hc)
  rw [findFirstOf, h.1, h.2]

theorem findFirstOf_skip (hs : ∀ c ∈ s, c ∉ q) :
    (findFirstOf (s ++ rest) q).2 = (findFirstOf rest q).2 :=
  List.dropWhile_append_of_pos fun c hc => by simpa using hs c hc

theorem findChar_append (hs : c ∉ s) (hrest : ∀ d ∈ rest.head?, d = c) :
    findChar (s ++ rest) c = (s, rest) := by
  have h := @takeWhile_append_rest s rest (decide <| · ≠ c)
    (fun d hd => decide_eq_true fun heq => hs (heq ▸ hd))
    (fun d hd => decide_eq_false fun hne => hne (hrest d hd))
  rw [findChar, h.1, h.2]

end Places

/-! ## Characters -/

/-- What a decoding makes of a text is the character, and nothing is left of the text. -/
def isRead (plain : UInt8 → UInt8) (c : UInt8) : (text : List UInt8) → Bool
  | [d] => d != percent && plain d == c
  | [p, a, b] =>
    p == percent && !(getHexDigit a < 0) && !(getHexDigit b < 0) &&
      ((getHexDigit a).toUInt8 <<< 4 ||| (getHexDigit b).toUInt8) == c
  | _ => false

/-- A character is written, in characters of the class and none of those to avoid, as what is read
as it. -/
def codes (plain : UInt8 → UInt8) (special : UInt8 → Option (List UInt8)) (mask : UInt8)
    (avoid : List UInt8) (c : UInt8) : Bool :=
  match encodeChar special mask c with
  | .ok text => isRead plain c text && isChars text (mask ||| 0x20) && text.all (!avoid.contains ·)
  | .error _ => false

/-- An encoding, the decoding of it, and the characters that are never written. -/
structure Coding (plain : UInt8 → UInt8) (special : UInt8 → Option (List UInt8)) (mask : UInt8)
    (avoid : List UInt8) : Prop where
  ascii : ∀ n < 128, codes plain special mask avoid (UInt8.ofNat n) = true
  special : ∀ c, 128 ≤ c → special c = none

/-- The five encodings, of the first half of the table. -/
theorem codes_table : ∀ n < 128,
    codes id (fun _ => none) 0x05 [atSign, slash, questionMark, numberSign] (.ofNat n) = true ∧
    codes id (fun _ => none) 0x0F [questionMark, numberSign] (.ofNat n) = true ∧
    codes id (fun _ => none) 0x1F [numberSign] (.ofNat n) = true ∧
    codes plusToSpace keySpecial 0x1F [equalSign, semicolon, ampersand, numberSign] (.ofNat n) =
      true ∧
    codes plusToSpace valSpecial 0x1F [semicolon, ampersand, numberSign] (.ofNat n) = true := by
  decide +kernel

/-- The second half. -/
theorem special_table : ∀ c : UInt8, 128 ≤ c → keySpecial c = none ∧ valSpecial c = none ∧
    ¬ (0 : Int) ≤ (c.toInt8 >>> 4).toInt :=
  forall_byte (by decide +kernel)

theorem coding_user : Coding id (fun _ => none) 0x05 [atSign, slash, questionMark, numberSign] :=
  ⟨fun n hn => (codes_table n hn).1, fun _ _ => rfl⟩

theorem coding_path : Coding id (fun _ => none) 0x0F [questionMark, numberSign] :=
  ⟨fun n hn => (codes_table n hn).2.1, fun _ _ => rfl⟩

theorem coding_fragment : Coding id (fun _ => none) 0x1F [numberSign] :=
  ⟨fun n hn => (codes_table n hn).2.2.1, fun _ _ => rfl⟩

theorem coding_key :
    Coding plusToSpace keySpecial 0x1F [equalSign, semicolon, ampersand, numberSign] :=
  ⟨fun n hn => (codes_table n hn).2.2.2.1, fun c hc => (special_table c hc).1⟩

theorem coding_val : Coding plusToSpace valSpecial 0x1F [semicolon, ampersand, numberSign] :=
  ⟨fun n hn => (codes_table n hn).2.2.2.2, fun c hc => (special_table c hc).2.1⟩

/-- No class has a character from the second half of the table. -/
theorem isChar_of_le (h : 128 ≤ c) : isChar c mask = false := by
  have hzero : tbl.getD c.toNat 0 = 0 := by
    rw [tbl, List.getD_append_right _ _ _ _ (UInt8.le_iff_toNat_le.1 h)]
    apply List.getD_replicate
    have := c.toNat_lt
    have hlen : c.toNat - 128 < 128 := by omega
    exact hlen
  rw [isChar, hzero, UInt8.zero_and]
  rfl

/-- The digits of a character from 128 on are not in the literal. -/
theorem percentEncode_of_le (h : 128 ≤ c) : percentEncode c = .error (.undefined .literal) := by
  have hdigit : hexDigitAt (c.toInt8 >>> 4).toInt = .error (.undefined .literal) := by
    rw [hexDigitAt, if_neg (special_table c h).2.2]
  rw [percentEncode, hdigit]

section Coding

variable (h : Coding plain special mask avoid)
include h

theorem Coding.of_lt (hc : c < 128) : codes plain special mask avoid c = true := by
  have hcodes := h.ascii c.toNat (UInt8.lt_iff_toNat_lt.1 hc)
  rwa [UInt8.ofNat_toNat] at hcodes

theorem Coding.lt_iff : (∃ text, encodeChar special mask c = .ok text) ↔ c < 128 := by
  by_cases hc : c < 128
  · have hcodes := h.of_lt hc
    rw [codes] at hcodes
    split at hcodes
    · next text htext => exact iff_of_true ⟨text, htext⟩ hc
    · cases hcodes
  · have hle := UInt8.not_lt.1 hc
    have herror : encodeChar special mask c = .error (.undefined .literal) := by
      rw [encodeChar, h.special c hle]
      dsimp only
      rw [isChar_of_le hle, if_neg Bool.false_ne_true, percentEncode_of_le hle]
    rw [herror]
    exact iff_of_false (fun ⟨_, hno⟩ => by cases hno) hc

theorem Coding.of_ok (hok : encodeChar special mask c = .ok text) :
    isRead plain c text = true ∧ isChars text (mask ||| 0x20) = true ∧ ∀ d ∈ avoid, d ∉ text := by
  have hc := h.of_lt (h.lt_iff.1 ⟨text, hok⟩)
  rw [codes, hok] at hc
  simp only [Bool.and_eq_true] at hc
  refine ⟨hc.1.1, hc.1.2, fun d hd hmem => ?_⟩
  have hno := List.all_eq_true.1 hc.2 d hmem
  rw [List.contains_iff_mem.2 hd] at hno
  cases hno

end Coding

theorem isRead_cases (h : isRead plain c text) :
    (∃ d, text = [d] ∧ d ≠ percent ∧ plain d = c) ∨
      ∃ a b, text = [percent, a, b] ∧ ¬ (getHexDigit a < 0 ∨ getHexDigit b < 0) ∧
        ((getHexDigit a).toUInt8 <<< 4 ||| (getHexDigit b).toUInt8) = c := by
  match text, h with
  | [d], h =>
    rw [isRead, Bool.and_eq_true, bne_iff_ne, beq_iff_eq] at h
    exact Or.inl ⟨d, rfl, h⟩
  | [p, a, b], h =>
    simp only [isRead, Bool.and_eq_true, beq_iff_eq, Bool.not_eq_true', decide_eq_false_iff_not] at h
    obtain ⟨⟨⟨rfl, ha⟩, hb⟩, hval⟩ := h
    exact Or.inr ⟨a, b, rfl, not_or.2 ⟨ha, hb⟩, hval⟩

theorem decodeChars_cons (h : c ≠ percent) :
    decodeChars plain (c :: s) = (decodeChars plain s).map (plain c :: ·) := by
  conv_lhs => unfold decodeChars
  exact if_neg h

theorem decodeChars_escape {a b : UInt8} (h : ¬ (getHexDigit a < 0 ∨ getHexDigit b < 0)) :
    decodeChars plain (percent :: a :: b :: s) = (decodeChars plain s).map
      (((getHexDigit a).toUInt8 <<< 4 ||| (getHexDigit b).toUInt8) :: ·) := by
  rw [decodeChars, if_pos rfl, if_neg h]

/-- What is read as a character is decoded as it, whatever follows. -/
theorem decodeChars_append (h : isRead plain c text) :
    decodeChars plain (text ++ rest) = (decodeChars plain rest).map (c :: ·) := by
  obtain ⟨d, rfl, hd, rfl⟩ | ⟨a, b, rfl, hab, rfl⟩ := isRead_cases h
  · exact decodeChars_cons hd
  · exact decodeChars_escape hab

/-! ## Ranges -/

theorem encodeChars_cons (h : encodeChars special mask (c :: s) = .ok t) : ∃ text t',
    encodeChar special mask c = .ok text ∧ encodeChars special mask s = .ok t' ∧ t = text ++ t' := by
  rw [encodeChars] at h
  cases hc : encodeChar special mask c with
  | error e =>
    rw [hc] at h
    cases h
  | ok text =>
    rw [hc] at h
    obtain ⟨t', ht', rfl⟩ := map_eq_ok.1 h
    exact ⟨text, t', rfl, ht', rfl⟩

/-- **The rule for ranges.** What holds of nothing, and is kept when a character and what is written
for it come in front, holds of every range and its encoding. -/
@[elab_as_elim]
theorem encodeChars_induct {motive : List UInt8 → List UInt8 → Prop}
    (h : encodeChars special mask s = .ok t) (nil : motive [] [])
    (cons : ∀ {c : UInt8} {text s t : List UInt8}, encodeChar special mask c = .ok text →
      motive s t → motive (c :: s) (text ++ t)) : motive s t := by
  induction s generalizing t with
  | nil =>
    cases h
    exact nil
  | cons c s ih =>
    obtain ⟨text, t', hc, hs, rfl⟩ := encodeChars_cons h
    exact cons hc (ih hs)

section Coding

variable (h : Coding plain special mask avoid)
include h

theorem Coding.encode_iff :
    (∃ t, encodeChars special mask s = .ok t) ↔ ∀ c ∈ s, c < 128 := by
  constructor
  · rintro ⟨t, ht⟩
    refine encodeChars_induct ht (fun _ hc => absurd hc List.not_mem_nil) fun hc ih => ?_
    exact List.forall_mem_cons.2 ⟨h.lt_iff.1 ⟨_, hc⟩, ih⟩
  · intro hs
    induction s with
    | nil => exact ⟨[], rfl⟩
    | cons c s ih =>
      obtain ⟨hc, hs⟩ := List.forall_mem_cons.1 hs
      obtain ⟨text, htext⟩ := h.lt_iff.2 hc
      obtain ⟨t, ht⟩ := ih hs
      exact ⟨text ++ t, by rw [encodeChars, htext, ht]; rfl⟩

/-- **The round trip of a range.** -/
theorem Coding.decode (ht : encodeChars special mask s = .ok t) :
    decodeChars plain t = .ok s := by
  refine encodeChars_induct ht rfl fun hc ih => ?_
  rw [decodeChars_append (h.of_ok hc).1, ih]
  rfl

theorem Coding.isChars (ht : encodeChars special mask s = .ok t) :
    isChars t (mask ||| 0x20) = true := by
  refine encodeChars_induct ht rfl fun hc ih => ?_
  rw [Url.isChars, List.all_append, Bool.and_eq_true]
  exact ⟨(h.of_ok hc).2.1, ih⟩

theorem Coding.avoids (ht : encodeChars special mask s = .ok t) : ∀ d ∈ avoid, d ∉ t := by
  refine encodeChars_induct ht (fun _ _ => List.not_mem_nil) fun hc ih d hd hmem => ?_
  rcases List.mem_append.1 hmem with hmem | hmem
  · exact (h.of_ok hc).2.2 d hd hmem
  · exact ih d hd hmem

theorem Coding.ne_nil (ht : encodeChars special mask s = .ok t) (hne : s ≠ []) : t ≠ [] := by
  rintro rfl
  have hnil := h.decode ht
  cases hnil
  exact hne rfl

end Coding

/-- How long what is written for a character is. -/
def cost (special : UInt8 → Option (List UInt8)) (mask c : UInt8) : Nat :=
  match special c with
  | some text => text.length
  | none => if isChar c mask then 1 else 3

theorem length_encodeChars (h : encodeChars special mask s = .ok t) :
    t.length = (s.map (cost special mask)).sum := by
  refine encodeChars_induct h rfl fun {c text s t} hc ih => ?_
  rw [List.length_append, ih, List.map_cons, List.sum_cons, Nat.add_right_cancel_iff, cost]
  cases hspecial : special c with
  | some out =>
    rw [encodeChar, hspecial] at hc
    cases hc
    rfl
  | none =>
    rw [encodeChar, hspecial] at hc
    dsimp only at hc ⊢
    split at hc
    · next hplain =>
      cases hc
      rw [if_pos hplain]
      rfl
    · next hplain =>
      rw [if_neg hplain]
      rw [percentEncode] at hc
      split at hc
      · cases hc
        rfl
      · cases hc
      · cases hc

/-! ## Texts without a percent sign -/

theorem decodeChars_of_not_mem (h : percent ∉ s) : decodeChars plain s = .ok (s.map plain) := by
  induction s with
  | nil => rfl
  | cons c s ih =>
    rw [List.mem_cons, not_or] at h
    rw [decodeChars_cons (Ne.symm h.1), ih h.2]
    rfl

theorem decode_of_not_mem (h : percent ∉ s) : decode s = .ok s := by
  rw [decode, decodeChars_of_not_mem h, List.map_id]

/-- Characters of the class are written as they are. -/
theorem encode_of_isChars (h : isChars s mask) : encode s mask = .ok s := by
  induction s with
  | nil => rfl
  | cons c s ih =>
    rw [isChars, List.all_cons, Bool.and_eq_true] at h
    rw [encode, encodeChars, encodeChar, if_pos h.1]
    dsimp only
    rw [← encode, ih h.2]
    rfl

end SNet.Http.Url
