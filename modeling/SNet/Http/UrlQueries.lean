import SNet.Http.UrlEscapes

/-!
# Queries

The text of a query whose keys are not empty is parsed as the query: a key ends where a separator
follows it, since what is written for it has none in it.
-/

namespace SNet.Http.Url

variable {url t text rest q : List UInt8} {entry : KeyVal} {query : List KeyVal}

/-! ## One entry -/

theorem entryText_cases (h : entryText entry = .ok t) : ∃ key,
    encodeQueryKey entry.key 0x1F = .ok key ∧ (entry.val = [] ∧ t = key ∨
      ∃ val, encodeQueryVal entry.val 0x1F = .ok val ∧ t = key ++ equalSign :: val) := by
  rw [entryText] at h
  split at h
  · next key hkey =>
    refine ⟨key, hkey, ?_⟩
    split at h
    · next hnil =>
      cases h
      exact Or.inl ⟨hnil, rfl⟩
    · obtain ⟨val, hval, rfl⟩ := map_eq_ok.1 h
      exact Or.inr ⟨val, hval, rfl⟩
  · cases h

theorem entryText_iff : (∃ t, entryText entry = .ok t) ↔
    (∀ c ∈ entry.key, c < 128) ∧ ∀ c ∈ entry.val, c < 128 := by
  rw [← coding_key.encode_iff, ← coding_val.encode_iff]
  constructor
  · rintro ⟨t, ht⟩
    obtain ⟨key, hkey, ⟨hnil, -⟩ | ⟨val, hval, -⟩⟩ := entryText_cases ht
    · rw [hnil]
      exact ⟨⟨key, hkey⟩, [], rfl⟩
    · exact ⟨⟨key, hkey⟩, val, hval⟩
  · rintro ⟨⟨key, hkey⟩, val, hval⟩
    rw [entryText, encodeQueryKey, hkey, encodeQueryVal, hval]
    dsimp only
    split
    · exact ⟨key, rfl⟩
    · exact ⟨_, rfl⟩

theorem readQuery_append {name : List UInt8} (hs : ∀ c ∈ t, c ∉ q) (hrest : ∀ c ∈ rest.head?, c ∈ q)
    (hchars : isChars t 0x3F) (hdecode : decodePlus t = .ok text) :
    readQuery url name (t ++ rest) q = .ok (text, rest) := by
  rw [readQuery, findFirstOf_append hs hrest]
  dsimp only
  rw [if_pos hchars, hdecode]
  rfl

/-- The value of an entry, in front of a separator or the end. -/
theorem readVal_append {val : List UInt8} (hval : encodeQueryVal entry.val 0x1F = .ok val)
    (hrest : ∀ c ∈ rest.head?, c = ampersand) :
    readVal url (equalSign :: (val ++ rest)) = .ok (entry.val, rest) := by
  have havoid := coding_val.avoids hval
  rw [readVal, if_pos rfl]
  apply readQuery_append _ _ (coding_val.isChars hval) (coding_val.decode hval)
  · intro c hc hmem
    refine havoid c ?_ hc
    rw [List.mem_cons, List.mem_singleton] at hmem
    rcases hmem with rfl | rfl <;> simp
  · intro c hc
    rw [hrest c hc]
    simp

theorem readVal_rest (hrest : ∀ c ∈ rest.head?, c = ampersand) :
    readVal url rest = .ok ([], rest) := by
  cases rest with
  | nil => rfl
  | cons c rest =>
    rw [hrest c rfl, readVal, if_neg (by decide)]

/-- **The round trip of an entry**, in front of a separator or the end. -/
theorem readEntry_append (h : entryText entry = .ok t)
    (hrest : ∀ c ∈ rest.head?, c = ampersand) :
    readEntry url (t ++ rest) = .ok (entry, rest) := by
  obtain ⟨key, hkey, hval⟩ := entryText_cases h
  have hread : ∀ {p : List UInt8}, (∀ c ∈ p.head?, c ∈ [equalSign, semicolon, ampersand]) →
      readQuery url (ascii "key") (key ++ p) [equalSign, semicolon, ampersand] =
        .ok (entry.key, p) := by
    intro p hp
    apply readQuery_append _ hp (coding_key.isChars hkey) (coding_key.decode hkey)
    intro c hc hmem
    refine coding_key.avoids hkey c ?_ hc
    rw [List.mem_cons, List.mem_cons, List.mem_singleton] at hmem
    rcases hmem with rfl | rfl | rfl <;> simp
  obtain ⟨hnil, rfl⟩ | ⟨val, hval, rfl⟩ := hval
  · rw [readEntry, hread fun c hc => by rw [hrest c hc]; simp]
    dsimp only
    rw [readVal_rest hrest, ← hnil]
    rfl
  · rw [List.append_assoc, List.cons_append, readEntry,
      hread fun c hc => by rw [eq_of_mem_head? hc]; simp]
    dsimp only
    rw [readVal_append hval hrest]
    rfl

theorem numberSign_not_mem_entryText (h : entryText entry = .ok t) : numberSign ∉ t := by
  obtain ⟨key, hkey, hval⟩ := entryText_cases h
  have hk : numberSign ∉ key := coding_key.avoids hkey _ (by simp)
  obtain ⟨-, rfl⟩ | ⟨val, hval, rfl⟩ := hval
  · exact hk
  · rw [List.mem_append, List.mem_cons, not_or, not_or]
    exact ⟨hk, by decide, coding_val.avoids hval _ (by simp)⟩

/-! ## All entries -/

theorem parseQuery_last {b : List UInt8} (h : readEntry url b = .ok (entry, [])) :
    parseQuery url b = .ok [entry] := by
  rw [parseQuery]
  split <;> simp_all

theorem parseQuery_next {b b' : List UInt8} {c : UInt8}
    (h : readEntry url b = .ok (entry, c :: b')) :
    parseQuery url b = (parseQuery url b').map (entry :: ·) := by
  rw [parseQuery]
  split <;> simp_all

theorem entriesText_cases (h : entriesText query = .ok t) :
    query = [] ∧ t = [] ∨ ∃ entry others text rest, query = entry :: others ∧ entry.key ≠ [] ∧
      entryText entry = .ok text ∧ entriesText others = .ok rest ∧
        t = ampersand :: (text ++ rest) := by
  cases query with
  | nil =>
    cases h
    exact Or.inl ⟨rfl, rfl⟩
  | cons entry others =>
    rw [entriesText] at h
    split at h
    · cases h
    · next hkey =>
      split at h
      · next text htext =>
        obtain ⟨rest, hrest, rfl⟩ := map_eq_ok.1 h
        exact Or.inr ⟨entry, others, text, rest, rfl, hkey, htext, hrest, rfl⟩
      · cases h

/-- **The round trip of a query**, entry by entry. -/
theorem parseQuery_entries (hentry : entryText entry = .ok text)
    (hothers : entriesText query = .ok rest) :
    parseQuery url (text ++ rest) = .ok (entry :: query) := by
  induction query generalizing entry text rest with
  | nil =>
    cases hothers
    exact parseQuery_last (readEntry_append hentry (fun c hc => by cases hc))
  | cons next others ih =>
    obtain ⟨hnil, -⟩ | ⟨_, _, text', rest', heq, -, htext, hrest, rfl⟩ := entriesText_cases hothers
    · cases hnil
    · cases heq
      have hread := @readEntry_append url text (ampersand :: (text' ++ rest')) entry hentry
        fun _ => eq_of_mem_head?
      rw [parseQuery_next hread, ih htext hrest]
      rfl

theorem numberSign_not_mem_entriesText (h : entriesText query = .ok t) : numberSign ∉ t := by
  induction query generalizing t with
  | nil =>
    cases h
    exact List.not_mem_nil
  | cons next others ih =>
    obtain ⟨hnil, -⟩ | ⟨_, _, text', rest', heq, -, htext, hrest, rfl⟩ := entriesText_cases h
    · cases hnil
    · cases heq
      rw [List.mem_cons, List.mem_append, not_or, not_or]
      exact ⟨by decide, numberSign_not_mem_entryText htext, ih hrest⟩

/-- What is written for a query: nothing, or a question mark and what is parsed as the query. -/
theorem queryText_cases (h : queryText query = .ok t) :
    query = [] ∧ t = [] ∨ ∃ q, t = questionMark :: q ∧ q ≠ [] ∧ numberSign ∉ q ∧
      ∀ url, parseQuery url q = .ok query := by
  cases query with
  | nil =>
    cases h
    exact Or.inl ⟨rfl, rfl⟩
  | cons entry others =>
    rw [queryText] at h
    split at h
    · cases h
    · next hkey =>
      split at h
      · next text htext =>
        obtain ⟨rest, hrest, rfl⟩ := map_eq_ok.1 h
        refine Or.inr ⟨text ++ rest, rfl, ?_, ?_, fun url => parseQuery_entries htext hrest⟩
        · obtain ⟨key, hk, hval⟩ := entryText_cases htext
          have hne := coding_key.ne_nil hk hkey
          obtain ⟨-, rfl⟩ | ⟨val, -, rfl⟩ := hval
          · exact List.append_ne_nil_of_left_ne_nil hne rest
          · exact List.append_ne_nil_of_left_ne_nil (List.append_ne_nil_of_left_ne_nil hne _) rest
        · rw [List.mem_append, not_or]
          exact ⟨numberSign_not_mem_entryText htext, numberSign_not_mem_entriesText hrest⟩
      · cases h

/-- An entry that is written. -/
structure WrittenEntry (entry : KeyVal) : Prop where
  key_ne_nil : entry.key ≠ []
  key_lt : ∀ c ∈ entry.key, c < 128
  val_lt : ∀ c ∈ entry.val, c < 128

theorem entriesText_iff : (∃ t, entriesText query = .ok t) ↔ ∀ e ∈ query, WrittenEntry e := by
  induction query with
  | nil => exact iff_of_true ⟨[], rfl⟩ fun _ he => absurd he List.not_mem_nil
  | cons entry others ih =>
    rw [List.forall_mem_cons, ← ih]
    constructor
    · rintro ⟨t, ht⟩
      obtain ⟨hnil, -⟩ | ⟨_, _, text, rest, heq, hkey, htext, hrest, -⟩ := entriesText_cases ht
      · cases hnil
      · cases heq
        have hlt := entryText_iff.1 ⟨text, htext⟩
        exact ⟨⟨hkey, hlt.1, hlt.2⟩, rest, hrest⟩
    · rintro ⟨hentry, rest, hrest⟩
      obtain ⟨text, htext⟩ := entryText_iff.2 ⟨hentry.key_lt, hentry.val_lt⟩
      rw [entriesText, if_neg hentry.key_ne_nil, htext, hrest]
      exact ⟨_, rfl⟩

/-- The first entry differs from the others in the character in front of it, and in the error. -/
theorem queryText_cons {entry : KeyVal} : queryText (entry :: query) =
    if entry.key = [] then .error (.build (ascii "First query entry has no key"))
    else (entriesText (entry :: query)).map fun t => questionMark :: t.tail := by
  rw [queryText, entriesText]
  split
  · rfl
  · cases entryText entry with
    | error e => rfl
    | ok text => cases entriesText query <;> rfl

theorem queryText_iff : (∃ t, queryText query = .ok t) ↔ ∀ e ∈ query, WrittenEntry e := by
  cases query with
  | nil => exact iff_of_true ⟨[], rfl⟩ fun _ he => absurd he List.not_mem_nil
  | cons entry others =>
    rw [queryText_cons, ← entriesText_iff]
    by_cases hkey : entry.key = []
    · rw [if_pos hkey, entriesText, if_pos hkey]
      exact iff_of_false (fun ⟨_, h⟩ => by cases h) fun ⟨_, h⟩ => by cases h
    · rw [if_neg hkey]
      constructor
      · rintro ⟨t, ht⟩
        obtain ⟨t', ht', -⟩ := map_eq_ok.1 ht
        exact ⟨t', ht'⟩
      · rintro ⟨t, ht⟩
        exact ⟨_, map_eq_ok.2 ⟨t, ht, rfl⟩⟩

/-- How long what is written for an entry is, with the character in front of it. -/
def entryLength (entry : KeyVal) : Nat :=
  1 + (entry.key.map (cost keySpecial 0x1F)).sum +
    if entry.val = [] then 0 else 1 + (entry.val.map (cost valSpecial 0x1F)).sum

theorem length_entryText (h : entryText entry = .ok t) : t.length + 1 = entryLength entry := by
  rw [entryText] at h
  rw [entryLength]
  split at h
  · next key hkey =>
    have hlen := length_encodeChars hkey
    split at h
    · next hnil =>
      cases h
      rw [if_pos hnil, hlen]
      omega
    · next hne =>
      obtain ⟨val, hval, rfl⟩ := map_eq_ok.1 h
      rw [if_neg hne, List.length_append, List.length_cons, hlen, length_encodeChars hval]
      omega
  · cases h

theorem length_entriesText (h : entriesText query = .ok t) :
    t.length = (query.map entryLength).sum := by
  induction query generalizing t with
  | nil =>
    cases h
    rfl
  | cons next others ih =>
    obtain ⟨hnil, -⟩ | ⟨_, _, text, rest, heq, -, htext, hrest, rfl⟩ := entriesText_cases h
    · cases hnil
    · cases heq
      rw [List.map_cons, List.sum_cons, ← length_entryText htext, ← ih hrest, List.length_cons,
        List.length_append]
      omega

theorem length_queryText (h : queryText query = .ok t) :
    t.length = (query.map entryLength).sum := by
  cases query with
  | nil =>
    cases h
    rfl
  | cons entry others =>
    rw [queryText_cons] at h
    split at h
    · cases h
    · obtain ⟨t', ht', rfl⟩ := map_eq_ok.1 h
      obtain ⟨hnil, -⟩ | ⟨_, _, text, rest, -, -, -, -, rfl⟩ := entriesText_cases ht'
      · cases hnil
      · rw [← length_entriesText ht']
        rfl

end SNet.Http.Url
