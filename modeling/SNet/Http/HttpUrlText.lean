import SNet.Http.HttpUrlRuns
import SNet.Http.UrlRoundTrip

/-!
# The text of a url

In every run the text that `str()` returns is built of the parts, and an object made from it has what
is parsed from it. So the parts come back exactly when they are faithful.
-/

namespace SNet.Http.HttpUrl

open Url

variable {u : HttpUrl} {parts : UrlParts} {text : List UInt8}

/-- What `str()` returns. -/
def strText (u : HttpUrl) : Except UrlError (List UInt8) :=
  match u.str with
  | (v, none) => .ok v.url
  | (_, some e) => .error e

/-- What the methods that only look at a part return. -/
def getParts (u : HttpUrl) : Except UrlError UrlParts :=
  match u.lazyParse with
  | (v, none) => .ok v.toUrlParts
  | (_, some e) => .error e

/-- `str()` returns a text, and the parts are parsed from it. -/
def RoundTrips (u : HttpUrl) (parts : UrlParts) : Prop :=
  ∃ text, u.strText = .ok text ∧ (ofString text).getParts = .ok parts

/-- If `str()` returns a text, the parts are parsed from it. -/
def Agrees (u : HttpUrl) (parts : UrlParts) : Prop :=
  ∀ text, u.strText = .ok text → (ofString text).getParts = .ok parts

theorem getParts_ofString : (ofString text).getParts = parseParts text := by
  have hlazy : (ofString text).lazyParse = (ofString text).parseUrl := rfl
  rw [getParts, hlazy, parseUrl]
  by_cases hnil : text = []
  · subst hnil
    rfl
  · have hurl : (ofString text).url = text := rfl
    rw [hurl, if_neg hnil]
    cases parseParts text <;> rfl

/-- The text is built of the parts, also when it counts as built already. -/
theorem strText_eq (h : Good u) (hparts : u.getParts = .ok parts) :
    u.strText = buildText parts := by
  rw [getParts] at hparts
  split at hparts
  · next v hv =>
    cases hparts
    rw [strText, str]
    by_cases hbuilt : u.built = true
    · obtain ⟨hparse, hurl, hempty⟩ := h.built hbuilt
      have hsame : u.lazyParse = (u, none) := by rw [lazyParse, if_pos hparse]
      rw [hsame] at hv
      cases hv
      rw [if_pos hbuilt, hempty]
      dsimp only
      rw [hurl]
      rfl
    · have hnone : u.lazyParse.2 = none := by rw [hv]
      rw [if_neg hbuilt, buildUrl, parsed_of_none hnone, hv]
      dsimp only
      cases buildText v.toUrlParts <;> rfl
  · cases hparts

theorem kept_of_getParts (h : Good u) (hparts : u.getParts = .ok parts) : Kept parts := by
  have hgood := good_lazyParse h
  rw [getParts] at hparts
  split at hparts
  · next v hv =>
    cases hparts
    rw [hv] at hgood
    exact hgood.kept
  · cases hparts

theorem roundTrips_iff_faithful (h : Good u) (hparts : u.getParts = .ok parts) :
    RoundTrips u parts ↔ Faithful parts := by
  rw [← parses_back_iff (kept_of_getParts h hparts), RoundTrips, strText_eq h hparts]
  simp only [getParts_ofString]

theorem agrees_iff (h : Good u) (hparts : u.getParts = .ok parts) :
    Agrees u parts ↔ (Writable parts → Faithful parts) := by
  rw [← roundTrips_iff_faithful h hparts, ← buildText_iff, ← strText_eq h hparts]
  constructor
  · rintro hagrees ⟨text, htext⟩
    exact ⟨text, htext, hagrees text htext⟩
  · intro hround text htext
    obtain ⟨text', htext', hback⟩ := hround ⟨text, htext⟩
    rw [htext] at htext'
    cases htext'
    exact hback

/-- **Parsing and building.** A text that is parsed is built again and parsed as the same parts
exactly when these are faithful; and in every run what `str()` returns is parsed as the parts exactly
when these are faithful, if they are written at all. -/
theorem parse_build_iff (text : List UInt8) (parts : UrlParts) :
    ((ofString text).getParts = .ok parts →
      (RoundTrips (ofString text) parts ↔ Faithful parts)) ∧
    ∀ u, Reached u → u.getParts = .ok parts →
      (Agrees u parts ↔ (Writable parts → Faithful parts)) :=
  ⟨roundTrips_iff_faithful (Reached.ofString text []).good, fun _ hu => agrees_iff hu.good⟩

/-- `/a` -/
def plainPath : List UInt8 := [47, 97]

/-- The host `h` is set, and a user info. -/
def withUser (user : List UInt8) : HttpUrl := run {} [.setHost [104] 0, .setUserInfo user]

theorem parse_build_iff_plain :
    (RoundTrips (ofString plainPath) { path := plainPath } ↔ Faithful { path := plainPath }) ∧
    (Agrees (withUser [97]) { user := [97], host := [104], ipV := 0 } ↔
      (Writable { user := [97], host := [104], ipV := 0 } →
        Faithful { user := [97], host := [104], ipV := 0 })) :=
  ⟨(parse_build_iff plainPath { path := plainPath }).1 (by rfl),
    (parse_build_iff [] { user := [97], host := [104], ipV := 0 }).2 (withUser [97]) (.empty _)
      (by rfl)⟩

/-- `/%80` -/
def encodedByte : List UInt8 := [47, 37, 56, 48]

/-- The byte that `/%80` is parsed into is not written, since its digits are looked up at a negative
index; and a space in the user info is written as `%20`, which is not parsed. -/
theorem parse_build_wrong :
    (ofString encodedByte).getParts = .ok { path := [47, 128] } ∧
    (ofString encodedByte).strText = .error (.undefined .literal) ∧
    ¬ RoundTrips (ofString encodedByte) { path := [47, 128] } ∧
    (withUser [32]).getParts = .ok { user := [32], host := [104], ipV := 0 } ∧
    (withUser [32]).strText = .ok [47, 47, 37, 50, 48, 64, 104] ∧
    ¬ Agrees (withUser [32]) { user := [32], host := [104], ipV := 0 } := by
  have hbyte : (ofString encodedByte).strText = .error (.undefined .literal) := by rfl
  have huser : (withUser [32]).strText = .ok [47, 47, 37, 50, 48, 64, 104] := by rfl
  refine ⟨by rfl, hbyte, ?_, by rfl, huser, ?_⟩
  · rintro ⟨text, htext, -⟩
    rw [hbyte] at htext
    cases htext
  · intro h
    have hback := h _ huser
    cases hback

end SNet.Http.HttpUrl
