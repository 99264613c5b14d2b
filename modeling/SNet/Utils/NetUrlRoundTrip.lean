import Mathlib.Data.List.Nodup
import SNet.Utils.NetUrlParams

/-!
# Encoding and parsing urls

`encode` puts an `&` behind every parameter, so the loop of `parse` stores each of them and stands
where it began (`ParamScan.foldl_items`): empty keys and values come back like others, in whatever
order the map lists them. `roundTrips_iff` says of which urls the text is parsed to the url again.
-/

namespace SNet.Utils

open Text

namespace NetUrl

/-- A text without `:`, `/` and `?`. -/
def Bare (x : List UInt8) : Prop := colon ∉ x ∧ slash ∉ x ∧ questionMark ∉ x

instance (x : List UInt8) : Decidable (Bare x) := inferInstanceAs (Decidable (_ ∧ _))

/-- The urls of which the text is to be parsed again: parsed ones, and those that are built from
parts. -/
inductive Made : NetUrl → Prop
  | parsed {channel : List UInt8} {url : NetUrl} : Parses channel url → Made url
  | ofParts {protocol host : List UInt8} {port : UInt16} : Bare protocol → Bare host →
    Made (ofParts protocol host port)
  | set {url : NetUrl} {key val : List UInt8} : Made url → Plain key → Plain val →
    Made (url.set key val)

/-- The text of the url is parsed to it, and what is parsed has the same text but for the order of
the parameters. -/
structure RoundTrips (url : NetUrl) (order : List (List UInt8 × List UInt8)) : Prop where
  parses : Parses (encode url order) url
  canonical : ∀ url' order', Parses (encode url order) url' → Enumerates order' url'.params →
    ∃ order₀, order₀.Perm order ∧ encode url' order' = encode url order₀

variable {url : NetUrl} {order order' : List (List UInt8 × List UInt8)} {params : UrlParams}
  {k v : List UInt8}

theorem Made.wellFormed (h : Made url) : WellFormed url := by
  induction h with
  | parsed h => exact h.wellFormed
  | ofParts hprotocol hhost =>
    exact ⟨isProtocol_of_not_mem hprotocol.1, ⟨hhost.1, hhost.2.2⟩, plainParams_none⟩
  | set _ hkey hval ih => exact ⟨ih.protocol, ih.host, ih.params.update hkey hval⟩

/-! ## The map and its lists -/

theorem Made.exists_order (h : Made url) : ∃ order, Enumerates order url.params :=
  h.wellFormed.params.listed

theorem storeAll_of_not_mem (h : k ∉ order.map (·.1)) : storeAll params order k = params k := by
  induction order generalizing params with
  | nil => rfl
  | cons p order ih =>
    rw [List.map_cons, List.mem_cons, not_or] at h
    rw [storeAll, List.foldl_cons]
    exact (ih h.2).trans (Function.update_of_ne h.1 ..)

theorem storeAll_of_mem (hn : (order.map (·.1)).Nodup) (h : (k, v) ∈ order) :
    storeAll params order k = some v := by
  induction order generalizing params with
  | nil => cases h
  | cons p order ih =>
    rw [List.map_cons, List.nodup_cons] at hn
    rw [storeAll, List.foldl_cons]
    cases h with
    | head => exact (storeAll_of_not_mem hn.1).trans (Function.update_self ..)
    | tail _ h => exact ih hn.2 h

theorem storeAll_of_enumerates (h : Enumerates order params) :
    storeAll (fun _ => none) order = params := by
  funext k
  cases hk : params k with
  | some v => exact storeAll_of_mem h.1 ((h.2 k v).1 hk)
  | none =>
    apply storeAll_of_not_mem
    intro hmem
    obtain ⟨p, hp, rfl⟩ := List.mem_map.1 hmem
    rw [(h.2 p.1 p.2).2 hp] at hk
    cases hk

theorem perm_of_enumerates (h : Enumerates order params) (h' : Enumerates order' params) :
    order'.Perm order := by
  have hn := List.Nodup.of_map _ h.1
  have hn' := List.Nodup.of_map _ h'.1
  refine (List.perm_ext_iff_of_nodup hn' hn).2 fun p => ?_
  rw [← h.2, ← h'.2]

/-! ## The text of a url -/

/-- The host and the port as `encode` writes them. -/
def hostText (url : NetUrl) : List UInt8 :=
  url.host ++ if 0 < url.port then [colon] ++ ascii (toString url.port.toNat) else []

/-- The parameters as `encode` writes them. -/
def orderText (order : List (List UInt8 × List UInt8)) : Option (List UInt8) :=
  if order.isEmpty then none
  else some (order.flatMap fun p => p.1 ++ [equalSign] ++ p.2 ++ [ampersand])

theorem encode_eq : encode url order = urlText url.protocol url.hostText (orderText order) := by
  rw [encode, urlText, hostText, orderText]
  cases order with
  | nil => simp
  | cons p order => simp

theorem hostPort_hostText (h : WellFormed url) :
    hostPort url.hostText = (url.host, .ok url.port) := by
  rw [hostText]
  split
  · next hport =>
    have hlt := url.port.toNat_lt
    rw [← List.append_assoc, hostPort_digits h.host.1 (toString_ne_nil _) (isDigit_toString _)
      (by rw [decimal_toString]; omega), decimal_toString, UInt16.ofNat_toNat]
  · next hport =>
    have hzero : url.port = 0 := UInt16.le_zero_iff.1 (UInt16.not_lt.1 hport)
    rw [List.append_nil, hostPort_host h.host.1, hzero]

theorem questionMark_not_mem_hostText (h : WellFormed url) : questionMark ∉ url.hostText := by
  rw [hostText]
  split
  · rw [← List.append_assoc]
    exact questionMark_not_mem h.host.2 (isDigit_toString _)
  · rw [List.append_nil]
    exact h.host.2

theorem params_eq (h : WellFormed url) (ho : Enumerates order url.params) :
    url.params = paramsOf (orderText order) := by
  have hplain : ∀ p ∈ order, Plain p.1 ∧ Plain p.2 := fun p hp =>
    h.params.plain p.1 p.2 ((ho.2 p.1 p.2).2 hp)
  have hread := ParamScan.foldl_items (m := fun _ => none) hplain
  rw [← storeAll_of_enumerates ho]
  cases order with
  | nil => rfl
  | cons p order =>
    rw [orderText, List.isEmpty_cons, if_neg Bool.false_ne_true, paramsOf, Option.elim_some]
    exact (congrArg ParamScan.finish hread).symm

theorem orderText_ne_none : orderText order ≠ none ↔ order ≠ [] := by
  cases order with
  | nil => simp [orderText]
  | cons p order => simp [orderText]

theorem parses_encode_iff (h : WellFormed url) (ho : Enumerates order url.params) :
    Parses (encode url order) url ↔ Indexable (encode url order) (order ≠ []) := by
  rw [encode_eq, parses_iff h.protocol (questionMark_not_mem_hostText h) (params_eq h ho),
    orderText_ne_none]
  exact ⟨And.right, fun hi => ⟨⟨rfl, hostPort_hostText h⟩, hi⟩⟩

/-- The round trip succeeds unless the index of the loop wraps. -/
theorem roundTrips_iff (h : Made url) (ho : Enumerates order url.params) :
    RoundTrips url order ↔ Indexable (encode url order) (order ≠ []) := by
  rw [← parses_encode_iff h.wellFormed ho]
  constructor
  · exact RoundTrips.parses
  · intro hparses
    refine ⟨hparses, fun url' order' h' ho' => ?_⟩
    obtain rfl := hparses.unique h'
    exact ⟨order', perm_of_enumerates ho ho', rfl⟩

/-- `tcp://h:80` with an empty key among the parameters. -/
def sample : NetUrl := ((ofParts (ascii "tcp") (ascii "h") 80).set [] (ascii "v")).set (ascii "k") []

def sampleOrder : List (List UInt8 × List UInt8) := [(ascii "k", []), ([], ascii "v")]

theorem sample_made : Made sample :=
  .set (.set (.ofParts (by decide) (by decide)) (by decide) (by decide)) (by decide) (by decide)

theorem sample_enumerates : Enumerates sampleOrder sample.params :=
  (enumerates_none.update [] (ascii "v")).update (ascii "k") []

theorem sample_roundTrips : RoundTrips sample sampleOrder :=
  (roundTrips_iff sample_made sample_enumerates).2 (.inl (by decide))

/-- A url of which the text is longer than the index can count. -/
def longUrl (n : Nat) : NetUrl := ofParts (ascii "tcp") (List.replicate n 97) 0

theorem bare_replicate (n : Nat) : Bare (List.replicate n 97) := by
  refine ⟨fun hc => ?_, fun hc => ?_, fun hc => ?_⟩ <;> cases List.eq_of_mem_replicate hc

theorem longUrl_made (n : Nat) : Made (longUrl n) := .ofParts (by decide) (bare_replicate n)

theorem longUrl_enumerates (n : Nat) : Enumerates [] (longUrl n).params := enumerates_none

theorem not_parses_longUrl {n : Nat} (h : 2 ^ 32 ≤ n) :
    ¬ Parses (encode (longUrl n) []) (longUrl n) := by
  rw [parses_encode_iff (longUrl_made n).wellFormed (longUrl_enumerates n)]
  have hlen : n ≤ (encode (longUrl n) []).length := by
    simp [encode, longUrl, ofParts]
    omega
  rintro (hlt | ⟨heq, -⟩)
  · omega
  · omega

/-- A host of 4 GiB. -/
theorem longUrl_not_roundTrips :
    Made (longUrl (2 ^ 32)) ∧ Enumerates [] (longUrl (2 ^ 32)).params ∧
      ¬ RoundTrips (longUrl (2 ^ 32)) [] :=
  ⟨longUrl_made _, longUrl_enumerates _, fun h => not_parses_longUrl (Nat.le_refl _) h.parses⟩

end NetUrl

end SNet.Utils
