import Mathlib.Logic.Function.Basic
import SNet.Library.Loop
import SNet.Library.Text

/-!
# Urls

`NetUrl::parse` and `NetUrl::encode`. The parameters of a url are read by a loop with a `uint32_t`
index and a flag `is_key` that both `=` and `&` toggle. `parses_some` and `parses_none` say what is
parsed from a text with and without parameters. The index wraps: a text of 2^32 bytes is never read
to its end, and one of 2^32 - 1 bytes without parameters is read from its front.
-/

namespace SNet.Utils

open Text

def equalSign : UInt8 := 61
def ampersand : UInt8 := 38
def colon : UInt8 := 58
def slash : UInt8 := 47
def questionMark : UInt8 := 63

/-- `params`, with `none` for a key that is not there. -/
abbrev UrlParams := List UInt8 → Option (List UInt8)

@[ext] structure NetUrl where
  protocol : List UInt8
  host : List UInt8
  port : UInt16
  params : UrlParams

/-- What `parse` comes to. `stoi` throws when the protocol and the host are set. -/
inductive ParseEnd
  | returned (ok : Bool) (url : NetUrl)
  | thrown (error : StoiError) (url : NetUrl)

/-- The variables of the loop over the parameters. -/
structure ParamScan where
  isKey : Bool
  key : List UInt8
  value : List UInt8
  params : UrlParams

namespace ParamScan

def start : ParamScan where
  isKey := true
  key := []
  value := []
  params _ := none

/-- `params[key] = value` -/
def store (s : ParamScan) : UrlParams := Function.update s.params s.key (some s.value)

/-- The body of the loop. -/
def read (s : ParamScan) (c : UInt8) : ParamScan :=
  if c = equalSign then { s with isKey := !s.isKey }
  else if c = ampersand then { isKey := !s.isKey, key := [], value := [], params := s.store }
  else if s.isKey then { s with key := s.key ++ [c] }
  else { s with value := s.value ++ [c] }

/-- The parameters after the loop. -/
def finish (s : ParamScan) : UrlParams := if s.key = [] then s.params else s.store

/-- `for (uint32_t i = …; i < channel.length(); i++)` -/
def loop (channel : List UInt8) : Loop (UInt32 × ParamScan) ParamScan := fun (i, s) =>
  match channel[i.toNat]? with
  | some c => .inl (i + 1, s.read c)
  | none => .inr s

end ParamScan

namespace NetUrl

def reset : NetUrl where
  protocol := []
  host := []
  port := 0
  params _ := none

/-- The constructor from a protocol, a host and a port. -/
def ofParts (proto host : List UInt8) (port : UInt16) : NetUrl :=
  { reset with protocol := proto, host := host, port := port }

def set (url : NetUrl) (key val : List UInt8) : NetUrl :=
  { url with params := Function.update url.params key (some val) }

/-- The host and the port of `hostInfo`. -/
def hostPort (hostInfo : List UInt8) : List UInt8 × Except StoiError UInt16 :=
  match find [colon] hostInfo with
  | some cPos =>
    let p := hostInfo.drop (cPos + 1)
    (hostInfo.take cPos, if p.isEmpty then .ok 0 else (stoi p).map fun n => UInt16.ofInt n)
  | none => (hostInfo, .ok 0)

/-- `parse`, or nothing if the loop over the parameters takes more than `fuel` rounds. -/
def parse (fuel : Nat) (channel : List UInt8) : Option ParseEnd :=
  match find (ascii "://") channel with
  | none => some (.returned false reset)
  | some pos =>
    let protocol := channel.take pos
    let pos := pos + 2
    let pPos := ((find [questionMark] (channel.drop pos)).map (· + pos)).getD channel.length
    let hostInfo := (channel.take pPos).drop (pos + 1)
    match hostPort hostInfo with
    | (host, .error e) => some (.thrown e { reset with protocol := protocol, host := host })
    | (host, .ok port) =>
      ((ParamScan.loop channel).run fuel (UInt32.ofNat (pPos + 1), .start)).map fun s =>
        .returned true { protocol := protocol, host := host, port := port, params := s.finish }

/-- `parse` returns true with this url. -/
def Parses (channel : List UInt8) (url : NetUrl) : Prop :=
  ∃ fuel, parse fuel channel = some (.returned true url)

/-- `encode`; `order` lists the parameters as the map enumerates them. -/
def encode (url : NetUrl) (order : List (List UInt8 × List UInt8)) : List UInt8 :=
  let text := url.protocol ++ ascii "://" ++ url.host ++
    if 0 < url.port then [colon] ++ ascii (toString url.port.toNat) else []
  if order.isEmpty then text
  else text ++ [questionMark] ++ order.flatMap fun p => p.1 ++ [equalSign] ++ p.2 ++ [ampersand]

end NetUrl

/-- The list has every parameter once. -/
def Enumerates (order : List (List UInt8 × List UInt8)) (params : UrlParams) : Prop :=
  (order.map (·.1)).Nodup ∧ ∀ k v, params k = some v ↔ (k, v) ∈ order

/-! ## The loop over the parameters -/

namespace ParamScan

variable {channel : List UInt8} {s r : ParamScan} {i : UInt32} {c : UInt8}

theorem loop_ends (h : channel.length < 2 ^ 32) :
    (loop channel).Ends (i, s) r ↔ r = (channel.drop i.toNat).foldl read s := by
  induction hd : channel.drop i.toNat generalizing i s with
  | nil =>
    have hnone : channel[i.toNat]? = none := List.getElem?_eq_none (List.drop_eq_nil_iff.1 hd)
    have hend : loop channel (i, s) = .inr s := by rw [loop, hnone]
    rw [Loop.ends_of_inr hend, List.foldl_nil, eq_comm]
  | cons c cs ih =>
    have hsome : channel[i.toNat]? = some c := by
      rw [← List.head?_drop, hd, List.head?_cons]
    have hlt : i.toNat < channel.length := (List.getElem?_eq_some_iff.1 hsome).1
    have hnext : (i + 1).toNat = i.toNat + 1 := by
      rw [UInt32.toNat_add, Nat.mod_eq_of_lt]
      · rfl
      · rw [UInt32.toNat_one]
        omega
    have hround : loop channel (i, s) = .inl (i + 1, s.read c) := by rw [loop, hsome]
    rw [Loop.ends_of_inl hround, List.foldl_cons]
    apply ih
    rw [hnext, ← List.tail_drop, hd, List.tail_cons]

/-- The index never reaches the length. -/
theorem not_loop_ends (h : 2 ^ 32 ≤ channel.length) : ¬ (loop channel).Ends (i, s) r := by
  refine Loop.not_ends_of_invariant (I := fun _ => True) (fun t _ => ?_) trivial
  have hlt : t.1.toNat < channel.length := Nat.lt_of_lt_of_le t.1.toNat_lt h
  refine ⟨(t.1 + 1, t.2.read channel[t.1.toNat]), ?_, trivial⟩
  rw [loop, List.getElem?_eq_getElem hlt]

end ParamScan

/-! ## The text of a url -/

namespace NetUrl

/-- `protocol://info`, and `?query` if there is one. -/
def urlText (protocol info : List UInt8) (query : Option (List UInt8)) : List UInt8 :=
  protocol ++ ascii "://" ++ info ++ query.elim [] (questionMark :: ·)

/-- In front of `://` the text has no other `://`. -/
def IsProtocol (protocol : List UInt8) : Prop :=
  find (ascii "://") (protocol ++ ascii "://") = some protocol.length

variable {protocol info q : List UInt8} {query : Option (List UInt8)} {url : NetUrl} {n fuel : Nat}

theorem isProtocol_of_not_mem (h : colon ∉ protocol) : IsProtocol protocol :=
  find_append_of_not_mem h

theorem find_urlText (hp : IsProtocol protocol) :
    find (ascii "://") (urlText protocol info query) = some protocol.length := by
  rw [urlText, List.append_assoc _ info, find_append]
  exact hp

theorem drop_urlText :
    (urlText protocol info query).drop (protocol.length + 2) =
      slash :: info ++ query.elim [] (questionMark :: ·) := by
  rw [urlText, List.append_assoc, List.append_assoc, ← List.drop_drop, List.drop_left]
  rfl

/-- The end of the host information. -/
theorem pPos_urlText (hi : questionMark ∉ info) :
    ((find [questionMark] ((urlText protocol info query).drop (protocol.length + 2))).map
      (· + (protocol.length + 2))).getD (urlText protocol info query).length =
      (protocol ++ ascii "://" ++ info).length := by
  have hslash : questionMark ∉ slash :: info := by
    rw [List.mem_cons, not_or]
    exact ⟨by decide, hi⟩
  rw [drop_urlText]
  cases query with
  | none =>
    rw [Option.elim_none, List.append_nil, find_of_not_mem hslash, Option.map_none,
      Option.getD_none, urlText, Option.elim_none, List.append_nil]
  | some q =>
    have hfind : find [questionMark] (slash :: info ++ questionMark :: q) =
        some (slash :: info).length := by
      rw [List.append_cons (slash :: info) questionMark q]
      exact find_append.2 (find_append_of_not_mem hslash)
    rw [Option.elim_some, hfind, Option.map_some, Option.getD_some]
    simp only [List.length_append, List.length_cons]
    have h3 : (ascii "://").length = 3 := rfl
    omega

theorem parse_urlText (hp : IsProtocol protocol) (hi : questionMark ∉ info) :
    parse fuel (urlText protocol info query) =
      match hostPort info with
      | (host, .error e) => some (.thrown e { reset with protocol := protocol, host := host })
      | (host, .ok port) =>
        ((ParamScan.loop (urlText protocol info query)).run fuel
          (UInt32.ofNat ((protocol ++ ascii "://" ++ info).length + 1), .start)).map fun s =>
          .returned true
            { protocol := protocol, host := host, port := port, params := s.finish } := by
  have htake : (urlText protocol info query).take protocol.length = protocol := by
    rw [urlText, List.append_assoc, List.append_assoc, List.take_left]
  have hinfo : ((urlText protocol info query).take (protocol ++ ascii "://" ++ info).length).drop
      (protocol.length + 2 + 1) = info := by
    have hlen : (protocol ++ ascii "://").length = protocol.length + 2 + 1 := List.length_append ..
    rw [urlText, List.take_left, List.drop_left' hlen]
  simp only [parse, find_urlText hp, pPos_urlText hi, htake, hinfo]

theorem parses_urlText (hp : IsProtocol protocol) (hi : questionMark ∉ info) :
    Parses (urlText protocol info query) url ↔
      url.protocol = protocol ∧ hostPort info = (url.host, .ok url.port) ∧
        ∃ s, (ParamScan.loop (urlText protocol info query)).Ends
          (UInt32.ofNat ((protocol ++ ascii "://" ++ info).length + 1), .start) s ∧
          url.params = s.finish := by
  obtain ⟨uprotocol, uhost, uport, uparams⟩ := url
  simp only [Parses, parse_urlText hp hi]
  rcases hostPort info with ⟨host, e | port⟩
  · simp
  · simp only [Option.map_eq_some_iff, ParseEnd.returned.injEq, NetUrl.mk.injEq, true_and,
      Prod.mk.injEq, Except.ok.injEq, Loop.Ends]
    constructor
    · rintro ⟨fuel, s, hs, rfl, rfl, rfl, rfl⟩
      exact ⟨rfl, ⟨rfl, rfl⟩, s, ⟨fuel, hs⟩, rfl⟩
    · rintro ⟨rfl, ⟨rfl, rfl⟩, s, ⟨fuel, hs⟩, rfl⟩
      exact ⟨fuel, s, hs, rfl, rfl, rfl, rfl⟩

theorem hostPort_host {host : List UInt8} (h : colon ∉ host) : hostPort host = (host, .ok 0) := by
  rw [hostPort, find_of_not_mem h]

theorem ofInt_natCast (n : Nat) : UInt16.ofInt n = UInt16.ofNat n := by
  have hmod : ((n : Int) % 2 ^ 16).toNat = n % 2 ^ 16 := by omega
  rw [UInt16.ofInt, hmod]
  exact UInt16.ofNat_mod_size

theorem hostPort_digits {host ds : List UInt8} (h : colon ∉ host) (hne : ds ≠ [])
    (hd : ∀ d ∈ ds, isDigit d) (hlt : decimal ds < 2 ^ 31) :
    hostPort (host ++ [colon] ++ ds) = (host, .ok (UInt16.ofNat (decimal ds))) := by
  have hfind : find [colon] (host ++ [colon] ++ ds) = some host.length :=
    find_append.2 (find_append_of_not_mem h)
  have hdrop : (host ++ [colon] ++ ds).drop (host.length + 1) = ds :=
    List.drop_left' (List.length_append ..)
  have htake : (host ++ [colon] ++ ds).take host.length = host := by
    rw [List.append_assoc, List.take_left]
  rw [hostPort, hfind]
  simp only [hdrop, htake, stoi_of_digits hne hd hlt, List.isEmpty_eq_false_iff.2 hne,
    Bool.false_eq_true, if_false, Except.map, ofInt_natCast]

/-- No digit is a `?`. -/
theorem questionMark_not_mem {host ds : List UInt8} (h : questionMark ∉ host)
    (hd : ∀ d ∈ ds, isDigit d) : questionMark ∉ host ++ [colon] ++ ds := by
  simp only [List.mem_append, List.mem_singleton, not_or]
  refine ⟨⟨h, by decide⟩, fun hm => ?_⟩
  cases hd questionMark hm

theorem length_urlText_some (protocol info q : List UInt8) :
    (urlText protocol info (some q)).length =
      (protocol ++ ascii "://" ++ info).length + 1 + q.length := by
  rw [urlText, Option.elim_some, List.length_append, List.length_cons]
  omega

theorem urlText_none : urlText protocol info none = protocol ++ ascii "://" ++ info := by
  rw [urlText, Option.elim_none, List.append_nil]

/-- What is parsed from a text with parameters. -/
theorem parses_some (hp : IsProtocol protocol) (hi : questionMark ∉ info) :
    Parses (urlText protocol info (some q)) url ↔
      (url.protocol = protocol ∧ hostPort info = (url.host, .ok url.port) ∧
        url.params = (q.foldl ParamScan.read .start).finish) ∧
      (urlText protocol info (some q)).length < 2 ^ 32 := by
  have hlen := length_urlText_some protocol info q
  rw [parses_urlText hp hi]
  by_cases hlt : (urlText protocol info (some q)).length < 2 ^ 32
  · have hi : (UInt32.ofNat ((protocol ++ ascii "://" ++ info).length + 1)).toNat =
        (protocol ++ ascii "://" ++ info).length + 1 :=
      UInt32.toNat_ofNat_of_lt' (by rw [UInt32.size]; omega)
    have hdrop : (urlText protocol info (some q)).drop
        ((protocol ++ ascii "://" ++ info).length + 1) = q := by
      rw [urlText, ← List.drop_drop, List.drop_left]
      rfl
    simp only [ParamScan.loop_ends hlt, hi, hdrop, exists_eq_left, hlt, and_true]
  · simp only [ParamScan.not_loop_ends (Nat.le_of_not_lt hlt), false_and, exists_false, and_false,
      hlt]

/-- What is parsed from a text without parameters: if the index wraps at its start, the parameters
are read from the whole text. -/
theorem parses_none (hp : IsProtocol protocol) (hi : questionMark ∉ info) :
    Parses (urlText protocol info none) url ↔
      (url.protocol = protocol ∧ hostPort info = (url.host, .ok url.port)) ∧
      ((urlText protocol info none).length + 1 < 2 ^ 32 ∧ url.params = (fun _ => none) ∨
        (urlText protocol info none).length + 1 = 2 ^ 32 ∧
          url.params = ((urlText protocol info none).foldl ParamScan.read .start).finish) := by
  rw [parses_urlText hp hi, ← urlText_none]
  generalize urlText protocol info none = text
  rcases Nat.lt_trichotomy (text.length + 1) (2 ^ 32) with hlt | heq | hgt
  · have hi : (UInt32.ofNat (text.length + 1)).toNat = text.length + 1 :=
      UInt32.toNat_ofNat_of_lt' hlt
    have hdrop : text.drop (text.length + 1) = [] := List.drop_eq_nil_of_le (Nat.le_succ _)
    simp only [ParamScan.loop_ends (Nat.lt_of_succ_lt hlt), hi, hdrop, List.foldl_nil,
      exists_eq_left, hlt, true_and, Nat.ne_of_lt hlt, false_and, or_false, and_assoc]
    rfl
  · have hi : (UInt32.ofNat (2 ^ 32)).toNat = 0 := rfl
    simp only [ParamScan.loop_ends (Nat.lt_of_succ_le (Nat.le_of_eq heq)), hi, List.drop_zero,
      exists_eq_left, heq, Nat.lt_irrefl, false_and, false_or, true_and, and_assoc]
  · simp only [ParamScan.not_loop_ends (Nat.le_of_lt_succ hgt), false_and, exists_false, and_false,
      Nat.not_lt_of_gt hgt, Nat.ne_of_gt hgt, or_self]

end NetUrl

end SNet.Utils
