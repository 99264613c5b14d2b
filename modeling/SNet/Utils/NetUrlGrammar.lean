import SNet.Utils.NetUrlParams

/-!
# The grammar of urls

`UrlSyntax` is a derivation in the grammar above `NetUrl`. A value of the grammar may contain `=`,
which toggles `is_key` like the `=` behind a key, so what follows it goes into the key:
`parses_grammar` says where `parse` gives what the grammar says.
-/

namespace SNet.Utils

open Text NetUrl

/-- The parts of `protocol://host[:port][?key=value(&key=value)*]`. -/
structure UrlSyntax where
  protocol : List UInt8
  host : List UInt8
  port : Option (List UInt8)
  params : List (List UInt8 × List UInt8)
  protocol_chars : colon ∉ protocol
  host_chars : colon ∉ host ∧ questionMark ∉ host
  port_digits : ∀ ds ∈ port, ds ≠ [] ∧ (∀ d ∈ ds, isDigit d) ∧ decimal ds ≤ 65535
  key_chars : ∀ p ∈ params, p.1 ≠ [] ∧ Plain p.1
  value_chars : ∀ p ∈ params, ampersand ∉ p.2 ∧ colon ∉ p.2

namespace UrlSyntax

variable (g : UrlSyntax)

def info : List UInt8 := g.host ++ g.port.elim [] ([colon] ++ ·)

/-- `param *( "&" param )` -/
def paramText : List (List UInt8 × List UInt8) → Option (List UInt8)
  | [] => none
  | (k, v) :: ps =>
    some (k ++ [equalSign] ++ v ++
      ps.flatMap fun p => [ampersand] ++ (p.1 ++ [equalSign] ++ p.2))

def text : List UInt8 := urlText g.protocol g.info (paramText g.params)

/-- What the text stands for. -/
def url : NetUrl where
  protocol := g.protocol
  host := g.host
  port := UInt16.ofNat (g.port.elim 0 decimal)
  params k := g.params.reverse.lookup k

theorem questionMark_not_mem_info : questionMark ∉ g.info := by
  rw [info]
  cases hport : g.port with
  | none =>
    rw [Option.elim_none, List.append_nil]
    exact g.host_chars.2
  | some ds =>
    rw [Option.elim_some, ← List.append_assoc]
    exact questionMark_not_mem g.host_chars.2 (g.port_digits ds hport).2.1

theorem hostPort_info : hostPort g.info = (g.url.host, .ok g.url.port) := by
  rw [info, url]
  cases hport : g.port with
  | none =>
    rw [Option.elim_none, Option.elim_none, List.append_nil]
    exact hostPort_host g.host_chars.1
  | some ds =>
    obtain ⟨hne, hd, hle⟩ := g.port_digits ds hport
    rw [Option.elim_some, Option.elim_some, ← List.append_assoc]
    exact hostPort_digits g.host_chars.1 hne hd (by omega)

/-- Without `=` in the values the parameters are read as they stand there. -/
theorem params_url (h : ∀ p ∈ g.params, equalSign ∉ p.2) :
    g.url.params = paramsOf (paramText g.params) := by
  have hplain : ∀ p ∈ g.params, p.1 ≠ [] ∧ Plain p.1 ∧ Plain p.2 := fun p hp =>
    ⟨(g.key_chars p hp).1, (g.key_chars p hp).2, h p hp, (g.value_chars p hp).1⟩
  have hstore : g.url.params = storeAll (fun _ => none) g.params := by
    funext k
    exact (storeAll_apply g.params k).symm
  rw [hstore]
  cases hparams : g.params with
  | nil => rfl
  | cons p ps =>
    rw [hparams, List.forall_mem_cons] at hplain
    obtain ⟨⟨hne, hk, hv⟩, hps⟩ := hplain
    rw [paramText, paramsOf, Option.elim_some, List.foldl_append]
    have hitem := ParamScan.foldl_item (m := fun _ => none) hk hv
    exact ((congrArg (fun s => (List.foldl ParamScan.read s _).finish) hitem).trans
      (ParamScan.finish_items hne hps)).symm

theorem paramText_ne_none : paramText g.params ≠ none ↔ g.params ≠ [] := by
  cases hparams : g.params with
  | nil => simp [paramText]
  | cons p ps => simp [paramText]

/-- `parse` gives what the grammar says if no value has an `=` in it, and otherwise only where each
value with an `=` is followed by another one of its key. -/
theorem parses_grammar :
    (Indexable g.text (g.params ≠ []) ∧ (∀ p ∈ g.params, equalSign ∉ p.2) → Parses g.text g.url) ∧
      (Parses g.text g.url →
        Indexable g.text (g.params ≠ []) ∧
          ∀ k v, g.params.reverse.lookup k = some v → equalSign ∉ v) := by
  have hp := isProtocol_of_not_mem g.protocol_chars
  have hi := g.questionMark_not_mem_info
  constructor
  · rintro ⟨hindex, hvalues⟩
    rw [← paramText_ne_none] at hindex
    exact (parses_iff hp hi (g.params_url hvalues)).2 ⟨⟨rfl, g.hostPort_info⟩, hindex⟩
  · intro h
    refine ⟨?_, fun k v hkv => (h.wellFormed.params.plain k v hkv).2.1⟩
    rw [← paramText_ne_none]
    refine indexable_of_parses hp hi h fun hnone => ?_
    have hnil : g.params = [] := not_not.1 fun hne => g.paramText_ne_none.2 hne hnone
    rw [url, hnil]
    rfl

/-- `tcp://h?k=YQ==` -/
def token : UrlSyntax where
  protocol := ascii "tcp"
  host := ascii "h"
  port := none
  params := [(ascii "k", ascii "YQ==")]
  protocol_chars := by decide
  host_chars := by decide
  port_digits := by decide
  key_chars := by decide
  value_chars := by decide

/-- The padding of a base64 value is lost. -/
theorem token_cut :
    token.text = ascii "tcp://h?k=YQ==" ∧ ¬ Parses token.text token.url ∧
      ∃ url, Parses token.text url ∧ url.params (ascii "k") = some (ascii "YQ") := by
  refine ⟨by decide, fun h => ?_, ?_⟩
  · have hplain := (h.wellFormed.params.plain (ascii "k") (ascii "YQ==") (by decide)).2
    revert hplain
    decide
  · refine ⟨⟨ascii "tcp", ascii "h", 0,
      ((ascii "k=YQ==").foldl ParamScan.read .start).finish⟩, ?_, by decide⟩
    exact (parses_some (isProtocol_of_not_mem token.protocol_chars)
      token.questionMark_not_mem_info).2 ⟨⟨rfl, token.hostPort_info, rfl⟩, by decide⟩

end UrlSyntax

end SNet.Utils
