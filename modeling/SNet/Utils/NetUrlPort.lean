import SNet.Utils.NetUrlParams

/-!
# The port of a url

`parse` looks for `://` and nothing else before it accepts a text, so a text with `://` is never
rejected, whatever stands where the port does: `rejectsCleanly_iff` says for which texts that makes
no difference.
-/

namespace SNet.Utils

open Text

/-- What stands between the first `:` behind `://` and the query, if `://` is there. -/
def portText (channel : List UInt8) : Option (List UInt8) :=
  (find (ascii "://") channel).map fun pos =>
    let info := (channel.drop (pos + 3)).takeWhile (· ≠ questionMark)
    (info.dropWhile (· ≠ colon)).drop 1

/-- Nothing, or a decimal number that a port can be. -/
def IsPort (text : List UInt8) : Prop := (∀ d ∈ text, isDigit d) ∧ decimal text ≤ 65535

namespace NetUrl

/-- `parse` returns false with this url. -/
def Rejects (channel : List UInt8) (url : NetUrl) : Prop :=
  ∃ fuel, parse fuel channel = some (.returned false url)

/-- What is promised of `parse`: it returns true with the number of a port that is right, and
otherwise false with nothing set. -/
def RejectsCleanly (channel : List UInt8) : Prop :=
  (∃ text url, portText channel = some text ∧ IsPort text ∧ Parses channel url ∧
      url.port.toNat = decimal text) ∨
    ((∀ text, portText channel = some text → ¬ IsPort text) ∧ Rejects channel reset)

variable {channel protocol info host text : List UInt8} {query : Option (List UInt8)} {url : NetUrl}

/-- With `://` there is no rejection. -/
theorem rejects_iff : Rejects channel url ↔ find (ascii "://") channel = none ∧ url = reset := by
  constructor
  · rintro ⟨fuel, h⟩
    cases hfind : find (ascii "://") channel with
    | none =>
      rw [parse, hfind] at h
      cases h
      exact ⟨rfl, rfl⟩
    | some pos =>
      obtain ⟨protocol, info, query, rfl, hp, hi⟩ := exists_urlText_of_find hfind
      rw [parse_urlText hp hi] at h
      split at h
      · cases h
      · obtain ⟨s, -, hs⟩ := Option.map_eq_some_iff.1 h
        cases hs
  · rintro ⟨hfind, hreset⟩
    exact ⟨0, by rw [parse, hfind, hreset]⟩

theorem takeWhile_questionMark (hi : questionMark ∉ info) :
    (info ++ query.elim [] (questionMark :: ·)).takeWhile (· ≠ questionMark) = info := by
  have hall : ∀ c ∈ info, decide (c ≠ questionMark) = true := by
    intro c hc
    exact decide_eq_true (fun he => hi (he ▸ hc))
  rw [List.takeWhile_append_of_pos hall]
  cases query with
  | none => simp
  | some q => simp

theorem portText_urlText (hp : IsProtocol protocol) (hi : questionMark ∉ info) :
    portText (urlText protocol info query) = some ((info.dropWhile (· ≠ colon)).drop 1) := by
  have hdrop : (urlText protocol info query).drop (protocol.length + 3) =
      info ++ query.elim [] (questionMark :: ·) := by
    rw [← Nat.add_assoc protocol.length 2 1, ← List.drop_drop, drop_urlText, List.cons_append,
      List.drop_one, List.tail_cons]
  rw [portText, find_urlText hp, Option.map_some, hdrop]
  dsimp only
  rw [takeWhile_questionMark hi]

/-- The two forms of host information. -/
theorem info_cases (info : List UInt8) :
    (colon ∉ info ∧ (info.dropWhile (· ≠ colon)).drop 1 = []) ∨
      ∃ host text, colon ∉ host ∧ info = host ++ [colon] ++ text ∧
        (info.dropWhile (· ≠ colon)).drop 1 = text := by
  by_cases hc : colon ∈ info
  · obtain ⟨host, text, rfl, hhost⟩ := List.eq_append_cons_of_mem hc
    refine .inr ⟨host, text, hhost, List.append_cons .., ?_⟩
    have hall : ∀ c ∈ host, decide (c ≠ colon) = true := by
      intro c hc
      exact decide_eq_true (fun he => hhost (he ▸ hc))
    rw [List.dropWhile_append_of_pos hall, List.dropWhile_cons_of_neg (by simp), List.drop_one,
      List.tail_cons]
  · refine .inl ⟨hc, ?_⟩
    have hnil : info.dropWhile (· ≠ colon) = [] := by
      rw [List.dropWhile_eq_nil_iff]
      intro c hmem
      exact decide_eq_true (fun he => hc (he ▸ hmem))
    rw [hnil, List.drop_nil]

theorem hostPort_empty (h : colon ∉ host) : hostPort (host ++ [colon]) = (host, .ok 0) := by
  have hfind : find [colon] (host ++ [colon]) = some host.length := find_append_of_not_mem h
  have hdrop : (host ++ [colon]).drop (host.length + 1) = [] :=
    List.drop_eq_nil_of_le (List.length_append ..).le
  have htake : (host ++ [colon]).take host.length = host := List.take_left
  rw [hostPort, hfind]
  simp only [hdrop, htake, List.isEmpty_nil, if_true]

/-- A port that is right is read. -/
theorem hostPort_of_isPort (h : IsPort ((info.dropWhile (· ≠ colon)).drop 1)) :
    ∃ host, hostPort info =
      (host, .ok (UInt16.ofNat (decimal ((info.dropWhile (· ≠ colon)).drop 1)))) := by
  rcases info_cases info with ⟨hc, htext⟩ | ⟨host, text, hc, rfl, htext⟩
  · rw [htext]
    exact ⟨info, hostPort_host hc⟩
  · rw [htext] at h ⊢
    refine ⟨host, ?_⟩
    by_cases hnil : text = []
    · rw [hnil, List.append_nil]
      exact hostPort_empty hc
    · have hle := h.2
      exact hostPort_digits hc hnil h.1 (by omega)

theorem parses_of_isPort (hp : IsProtocol protocol) (hi : questionMark ∉ info)
    (h : IsPort ((info.dropWhile (· ≠ colon)).drop 1))
    (hlen : (urlText protocol info query).length < 2 ^ 32) :
    ∃ url, Parses (urlText protocol info query) url ∧
      url.port.toNat = decimal ((info.dropWhile (· ≠ colon)).drop 1) := by
  obtain ⟨host, hhost⟩ := hostPort_of_isPort h
  refine ⟨⟨protocol, host, _, _⟩, (parses_urlText hp hi).2
    ⟨rfl, hhost, _, (ParamScan.loop_ends hlen).2 rfl, rfl⟩, ?_⟩
  exact UInt16.toNat_ofNat_of_lt' (Nat.lt_succ_of_le h.2)

theorem length_of_parses (h : Parses channel url) : channel.length < 2 ^ 32 := by
  obtain ⟨protocol, info, query, rfl, hp, hi⟩ := exists_urlText h
  obtain ⟨-, -, s, hs, -⟩ := (parses_urlText hp hi).1 h
  exact Nat.lt_of_not_le fun hle => ParamScan.not_loop_ends hle hs

/-- **When `parse` rejects cleanly**: exactly when `://` is missing or the port is right, in a text
whose length an `uint32_t` holds. -/
theorem rejectsCleanly_iff (channel : List UInt8) :
    RejectsCleanly channel ↔
      portText channel = none ∨
        ∃ text, portText channel = some text ∧ IsPort text ∧ channel.length < 2 ^ 32 := by
  constructor
  · intro h
    rcases h with ⟨text, url, htext, hport, hparses, -⟩ | ⟨-, hrejects⟩
    · exact .inr ⟨text, htext, hport, length_of_parses hparses⟩
    · exact .inl (by rw [portText, (rejects_iff.1 hrejects).1, Option.map_none])
  · intro h
    rcases h with hnone | ⟨text, htext, hport, hlen⟩
    · refine .inr ⟨fun text htext => ?_, rejects_iff.2 ⟨Option.map_eq_none_iff.1 hnone, rfl⟩⟩
      rw [hnone] at htext
      cases htext
    · obtain ⟨pos, hfind, -⟩ := Option.map_eq_some_iff.1 htext
      obtain ⟨protocol, info, query, rfl, hp, hi⟩ := exists_urlText_of_find hfind
      rw [portText_urlText hp hi] at htext
      cases htext
      obtain ⟨url, hparses, hnumber⟩ := parses_of_isPort hp hi hport hlen
      exact .inl ⟨_, url, portText_urlText hp hi, hport, hparses, hnumber⟩

/-- Letters where the port stands are not rejected: `stoi` throws. -/
theorem rejectsCleanly_of_letters : ¬ ∀ channel, RejectsCleanly channel := by
  intro h
  have hthrown : ∀ fuel, parse fuel (ascii "tcp://h:abc") =
      some (.thrown .invalidArgument
        { reset with protocol := ascii "tcp", host := ascii "h" }) := fun fuel => rfl
  rcases h (ascii "tcp://h:abc") with ⟨text, url, -, -, ⟨fuel, hparses⟩, -⟩ | ⟨-, fuel, hrejects⟩
  · rw [hthrown] at hparses
    cases hparses
  · rw [hthrown] at hrejects
    cases hrejects

end NetUrl

end SNet.Utils
