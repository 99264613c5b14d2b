import SNet.Http.UrlInvariant

/-!
# Runs of a url

Every method keeps `Good`: the parts are kept ones, and a url that counts as built is the empty one.
So this holds in every run, whatever the methods are called with and whether they throw or not.
-/

namespace SNet.Http.HttpUrl

open Text Url

variable {u v w : HttpUrl} {f : HttpUrl → Except UrlError HttpUrl} {g : HttpUrl → Outcome}

structure Good (u : HttpUrl) : Prop where
  kept : Kept u.toUrlParts
  built : u.built = true → u.parse = true ∧ u.url = [] ∧ u.toUrlParts = {}

theorem good_empty : Good {} := ⟨kept_empty, fun _ => ⟨rfl, rfl, rfl⟩⟩

/-- Anything may stand where the text is when the parts are kept ones and nothing counts as built. -/
theorem Good.of_kept (h : Kept u.toUrlParts) (hb : u.built = false) : Good u :=
  ⟨h, fun hbuilt => absurd (hb.symm.trans hbuilt) Bool.false_ne_true⟩

theorem good_lazyParse (h : Good u) : Good u.lazyParse.1 := by
  rw [lazyParse]
  split
  · exact h
  · rw [parseUrl]
    split
    · exact good_empty
    · split
      · next hparse => exact Good.of_kept (kept_parseParts hparse) rfl
      · exact h

theorem parsed_of_none (h : u.lazyParse.2 = none) : parsed f u =
    match f u.lazyParse.1 with
    | .ok v => (v, none)
    | .error e => (u.lazyParse.1, some e) := by
  rw [parsed]
  split
  · next v heq =>
    have hv : u.lazyParse.1 = v := congrArg Prod.fst heq
    cases hf : f v with
    | ok w => simp only [hv, hf]
    | error e => simp only [hv, hf]
  · next heq =>
    rw [heq] at h
    cases h

/-- **The rule for methods**: what is done to parts that are up to date is to keep `Good`. -/
theorem good_parsed (h : Good u) (hf : ∀ {v w}, Good v → f v = .ok w → Good w) :
    Good (parsed f u).1 := by
  have hparsed := good_lazyParse h
  rw [parsed]
  split
  · next v heq =>
    rw [heq] at hparsed
    split
    · next hw => exact hf hparsed hw
    · exact hparsed
  · next heq =>
    rw [heq] at hparsed
    exact hparsed

theorem good_guarded {valid : Bool} {reason : List UInt8} (h : Good u)
    (hg : valid = true → Good (g u).1) : Good (guarded valid reason g u).1 := by
  rw [guarded]
  split
  · next hvalid => exact hg hvalid
  · exact h

theorem good_changed {same : Bool} (h : Good u) (hv : Kept v.toUrlParts) :
    Good (changed same v u) := by
  rw [changed]
  split
  · exact h
  · exact Good.of_kept hv rfl

/-! ## The methods -/

theorem good_get (h : Good u) : Good u.get.1 :=
  good_parsed h fun hv hw => Except.ok.inj hw ▸ hv

theorem good_buildUrl (h : Good u) : Good u.buildUrl.1 := by
  refine good_parsed h fun hv hw => ?_
  obtain ⟨text, -, rfl⟩ := map_eq_ok.1 hw
  exact Good.of_kept hv.kept rfl

theorem good_str (h : Good u) : Good u.str.1 := by
  rw [str]
  split
  · exact h
  · exact good_buildUrl h

theorem good_setScheme {s : List UInt8} (h : Good u) : Good (u.setScheme s).1 := by
  refine good_guarded h fun hs => good_parsed h fun {v w} hv hw => ?_
  cases hw
  refine good_changed hv { hv.kept with scheme := ?_, port := ?_ }
  · exact Or.inr ⟨isScheme_toLower.trans hs, toLower_toLower⟩
  · dsimp only
    split
    · exact Or.inl rfl
    · exact hv.kept.port

theorem good_setUserInfo {s : List UInt8} (h : Good u) : Good (u.setUserInfo s).1 := by
  refine good_guarded h fun _ => good_parsed h fun {v w} hv hw => ?_
  cases hw
  exact good_changed hv { hv.kept with }

theorem kept_checkHost {s t : List UInt8} {ipV n : UInt8} (h : checkHost s ipV = .ok (n, t)) :
    isChars t 0x05 = true ∧ (n.toInt8 = 6 → ∀ c ∈ t, IPv6.isPart c = true) := by
  rw [checkHost] at h
  split at h
  · cases h
    exact ⟨rfl, fun _ _ hc => absurd hc List.not_mem_nil⟩
  · split at h
    · next hipv4 =>
      split at h
      · cases h
        exact ⟨isChars_of_isRegName (isRegName_of_isIpv4 hipv4), fun hsix => absurd hsix (by decide)⟩
      · cases h
    · split at h
      · split at h
        · next hipv6 =>
          cases h
          have hpart := isPart_of_isIpv6 hipv6
          exact ⟨isChars_of_isPart hpart, fun _ => hpart⟩
        · cases h
      · split at h
        · split at h
          · obtain ⟨o, ho, heq⟩ := map_eq_ok.1 h
            cases heq
            have hpart := isPart_normalizeIPv6 ho
            exact ⟨isChars_of_isPart hpart, fun _ => hpart⟩
          · cases h
        · split at h
          · next hname =>
            cases h
            rw [normalizeRegName, isChars_toLower]
            exact ⟨isChars_of_isRegName hname, fun hsix => absurd hsix (by decide)⟩
          · cases h

theorem good_setHost {s : List UInt8} {ipV : UInt8} (h : Good u) : Good (u.setHost s ipV).1 := by
  refine good_guarded h fun _ => good_parsed h fun {v w} hv hw => ?_
  obtain ⟨⟨n, t⟩, ht, rfl⟩ := map_eq_ok.1 hw
  have hhost := kept_checkHost ht
  exact good_changed hv { hv.kept with host := hhost.1, address := hhost.2 }

theorem good_setPort {s : List UInt8} (h : Good u) : Good (u.setPort s).1 := by
  refine good_guarded h fun hs => good_parsed h fun {v w} hv hw => ?_
  cases hw
  refine good_changed hv { hv.kept with port := ?_ }
  dsimp only
  split
  · exact Or.inl rfl
  · exact Or.inr hs

theorem good_setPath {s : List UInt8} (h : Good u) : Good (u.setPath s).1 := by
  refine good_guarded h fun _ => good_parsed h fun {v w} hv hw => ?_
  cases hw
  exact good_changed hv { hv.kept with path := normalizePath_idem }

theorem good_setFragment {s : List UInt8} (h : Good u) : Good (u.setFragment s).1 := by
  refine good_guarded h fun _ => good_parsed h fun {v w} hv hw => ?_
  cases hw
  exact good_changed hv { hv.kept with }

theorem good_queryAt {i : Nat} (h : Good u) : Good (u.queryAt i).1 := by
  refine good_parsed h fun hv hw => ?_
  split at hw
  · cases hw
    exact hv
  · cases hw

theorem good_mutateQuery {q : List KeyVal} (h : Good u) : Good (u.mutateQuery q).1 := by
  refine good_parsed h fun hv hw => ?_
  cases hw
  exact Good.of_kept { hv.kept with } rfl

theorem good_mutateEntry {i : Nat} {entry : KeyVal} (h : Good u) :
    Good (u.mutateEntry i entry).1 := by
  refine good_parsed h fun hv hw => ?_
  split at hw
  · cases hw
    exact Good.of_kept { hv.kept with } rfl
  · cases hw

theorem good_setQuery {q : List KeyVal} (h : Good u) : Good (u.setQuery q).1 := by
  refine good_parsed h fun {v w} hv hw => ?_
  cases hw
  exact good_changed hv { hv.kept with }

theorem good_addQuery {entry : KeyVal} (h : Good u) : Good (u.addQuery entry).1 := by
  refine good_parsed h fun hv hw => ?_
  cases hw
  exact Good.of_kept { hv.kept with } rfl

theorem good_getPort (h : Good u) : Good u.getPort.1 := by
  refine good_parsed h fun hv hw => ?_
  obtain ⟨-, -, rfl⟩ := map_eq_ok.1 hw
  exact hv

/-! ## Runs -/

theorem good_call {c : Call} (h : Good u) : Good (u.call c).1 := by
  cases c with
  | get => exact good_get h
  | str => exact good_str h
  | getPort => exact good_getPort h
  | queryAt => exact good_queryAt h
  | clear => exact good_empty
  | setStr => exact Good.of_kept h.kept rfl
  | setScheme => exact good_setScheme h
  | setUserInfo => exact good_setUserInfo h
  | setHost => exact good_setHost h
  | setPort => exact good_setPort h
  | setPortNumber => exact good_setPort h
  | setPath => exact good_setPath h
  | mutateQuery => exact good_mutateQuery h
  | mutateEntry => exact good_mutateEntry h
  | setQuery => exact good_setQuery h
  | addQuery => exact good_addQuery h
  | setFragment => exact good_setFragment h

/-- A url is made empty or from a text, and methods are called. -/
inductive Reached : HttpUrl → Prop
  | empty (calls : List Call) : Reached (run {} calls)
  | ofString (text : List UInt8) (calls : List Call) : Reached (run (ofString text) calls)

/-- **Every run keeps the parts as they are parsed or set.** -/
theorem good_run {calls : List Call} (h : Good u) : Good (run u calls) := by
  induction calls generalizing u with
  | nil => exact h
  | cons c calls ih => exact ih (good_call h)

theorem Reached.good (h : Reached u) : Good u := by
  cases h with
  | empty => exact good_run good_empty
  | ofString text => exact good_run (Good.of_kept kept_empty rfl)

end SNet.Http.HttpUrl
