import SNet.Http.HttpUrlRuns
import SNet.Http.UrlNumerals

/-!
# The port of a url

`port()` reads the port as a number in 32 bits with a sign. An accepted port is a numeral whose value
is at most 65535, or wraps to such a one and is far out of range then.
-/

namespace SNet.Http.HttpUrl

open Text Url

variable {s : List UInt8} {u : HttpUrl} {parts : UrlParts}

/-- An accepted port is in range, or its value wraps. -/
theorem le_iff_of_isPort (h : isPort s) : decimal s ≤ 65535 ↔ ¬ Wraps (decimal s) 65535 := by
  have hmod := (isPort_iff.1 h).2
  rw [wraps_iff (by decide)]
  omega

/-- An accepted port is read as its value, or is out of the range of `stoi` too. -/
theorem portValue_eq (hne : parts.port ≠ []) (h : isPort parts.port) :
    portValue parts =
      if decimal parts.port ≤ 65535 then .ok (UInt32.ofInt (decimal parts.port))
      else .error (.stoi .outOfRange) := by
  have hmod := (isPort_iff.1 h).2
  rw [portValue, if_neg hne, stoi_digits hne (isPort_iff.1 h).1.isDigit]
  by_cases hle : decimal parts.port ≤ 65535
  · rw [if_pos hle, if_pos (by omega)]
  · rw [if_neg hle, if_neg (by omega)]

theorem portValue_iff (h : Kept parts) :
    (∃ n, portValue parts = .ok n) ↔ ¬ Wraps (decimal parts.port) 65535 := by
  by_cases hnil : parts.port = []
  · have hno : ¬ Wraps (decimal parts.port) 65535 := by
      rw [hnil]
      rintro ⟨k, hk, hle, -⟩
      have hzero : decimal [] = 0 := rfl
      omega
    rw [portValue, if_pos hnil]
    exact iff_of_true ⟨80, rfl⟩ hno
  · have hport := h.port.resolve_left hnil
    rw [portValue_eq hnil hport, ← le_iff_of_isPort hport]
    split
    · next hle => exact iff_of_true ⟨_, rfl⟩ hle
    · next hgt => exact iff_of_false (fun ⟨_, hn⟩ => by cases hn) hgt

/-- `port()` throws nothing exactly when the port does not wrap. -/
theorem getPort_iff (h : Good u) (hparsed : u.lazyParse.2 = none) :
    u.getPort.2 = none ↔ ¬ Wraps (decimal u.lazyParse.1.port) 65535 := by
  rw [← portValue_iff (good_lazyParse h).kept, getPort, parsed_of_none hparsed]
  cases portValue u.lazyParse.1.toUrlParts with
  | ok n => exact iff_of_true rfl ⟨n, rfl⟩
  | error e => exact iff_of_false (fun h => by cases h) fun ⟨_, hn⟩ => by cases hn

/-- **The range check**, of the leading numeral of a text, of a port, and of the port of a url in any
run: each is right exactly when the value does not wrap to one in the range. -/
theorem rangeCheck_iff (s : List UInt8) (max : UInt32) :
    (UintRight s max ↔ ¬ Wraps (decimal (numeral s)) max.toNat) ∧
    (PortRight s ↔ ¬ (IsNumeral s ∧ Wraps (decimal s) 65535)) ∧
    ∀ u, Reached u → u.lazyParse.2 = none →
      (u.getPort.2 = none ↔ ¬ Wraps (decimal u.lazyParse.1.port) 65535) :=
  ⟨uintRight_iff, portRight_iff, fun _ hu => getPort_iff hu.good⟩

/-- `//h:8080` -/
def plainUrl : List UInt8 := [47, 47, 104, 58, 56, 48, 56, 48]

theorem rangeCheck_iff_plain : (ofString plainUrl).getPort.2 = none ↔
    ¬ Wraps (decimal (ofString plainUrl).lazyParse.1.port) 65535 :=
  (rangeCheck_iff plainUrl 65535).2.2 _ (.ofString plainUrl []) (by decide +kernel)

/-- `4294967296` -/
def wrappedPort : List UInt8 := [52, 50, 57, 52, 57, 54, 55, 50, 57, 54]

/-- `//h:4294967296` is accepted, and `port()` throws. -/
theorem rangeCheck_wrong :
    isUint wrappedPort 65535 = some [] ∧ decimal (numeral wrappedPort) = 4294967296 ∧
    ¬ UintRight wrappedPort 65535 ∧ ¬ PortRight wrappedPort ∧
    (ofString (plainUrl.take 4 ++ wrappedPort)).lazyParse.2 = none ∧
    (ofString (plainUrl.take 4 ++ wrappedPort)).getPort.2 = some (.stoi .outOfRange) := by
  have hval : decimal wrappedPort = 4294967296 := by decide +kernel
  have hwraps : Wraps 4294967296 65535 := ⟨1, Nat.one_pos, by decide, by decide⟩
  refine ⟨by decide +kernel, by decide +kernel, ?_, ?_, by decide +kernel, by decide +kernel⟩
  · rw [uintRight_iff]
    exact not_not.2 hwraps
  · rw [portRight_iff, hval]
    exact not_not.2 ⟨⟨List.cons_ne_nil _ _, by decide +kernel⟩, hwraps⟩

end SNet.Http.HttpUrl
