import Mathlib.Data.List.Induction
import SNet.Utils.NetUrl

/-!
# The parameters of a url

What the loop of `parse` reads. `=` and `&` never come into a key or a value (`Clean`), so of a plain
parameter the key and the value come out whole (`foldl_items`), and `parses_iff` is the common form
of both kinds of texts.
-/

namespace SNet.Utils

open Text

/-- A text without `=` and `&`. -/
def Plain (x : List UInt8) : Prop := equalSign ∉ x ∧ ampersand ∉ x

instance (x : List UInt8) : Decidable (Plain x) := inferInstanceAs (Decidable (_ ∧ _))

theorem plain_nil : Plain [] := ⟨List.not_mem_nil, List.not_mem_nil⟩

theorem plain_cons {c : UInt8} {x : List UInt8} :
    Plain (c :: x) ↔ (c ≠ equalSign ∧ c ≠ ampersand) ∧ Plain x := by
  simp only [Plain, List.mem_cons, not_or]
  exact ⟨fun h => ⟨⟨Ne.symm h.1.1, Ne.symm h.2.1⟩, h.1.2, h.2.2⟩,
    fun h => ⟨⟨Ne.symm h.1.1, h.2.1⟩, Ne.symm h.1.2, h.2.2⟩⟩

theorem Plain.concat {c : UInt8} {x : List UInt8} (h : Plain x) (he : c ≠ equalSign)
    (ha : c ≠ ampersand) : Plain (x ++ [c]) := by
  simp only [Plain, List.mem_append, List.mem_singleton, not_or]
  exact ⟨⟨h.1, Ne.symm he⟩, h.2, Ne.symm ha⟩

/-! ## Parameters -/

theorem enumerates_none : Enumerates [] fun _ => none := by
  refine ⟨List.nodup_nil, fun k v => ⟨fun h => ?_, fun h => absurd h List.not_mem_nil⟩⟩
  cases h

/-- `params[k] = v`, whether `k` is new or not. -/
theorem Enumerates.update {order : List (List UInt8 × List UInt8)} {params : UrlParams}
    (h : Enumerates order params) (k v : List UInt8) :
    Enumerates ((k, v) :: order.filter fun p => p.1 ≠ k) (Function.update params k (some v)) := by
  constructor
  · rw [List.map_cons, List.nodup_cons]
    refine ⟨fun hmem => ?_, h.1.sublist (List.filter_sublist.map _)⟩
    obtain ⟨p, hp, hpk⟩ := List.mem_map.1 hmem
    exact of_decide_eq_true (List.mem_filter.1 hp).2 hpk
  · intro k' v'
    rw [List.mem_cons, List.mem_filter, decide_eq_true_iff, ← h.2, Prod.mk.injEq,
      Function.update_apply]
    by_cases hk : k' = k
    · rw [if_pos hk, Option.some.injEq]
      exact ⟨fun hv => .inl ⟨hk, hv.symm⟩, fun hv => (hv.resolve_right fun hr => hr.2 hk).2.symm⟩
    · rw [if_neg hk]
      exact ⟨fun hv => .inr ⟨hv, hk⟩, fun hv => (hv.resolve_left fun hl => hk hl.1).1⟩

/-- Finitely many parameters, all of them plain. -/
structure PlainParams (params : UrlParams) : Prop where
  plain : ∀ k v, params k = some v → Plain k ∧ Plain v
  listed : ∃ order, Enumerates order params

theorem plainParams_none : PlainParams fun _ => none := by
  refine ⟨fun k v h => ?_, [], enumerates_none⟩
  cases h

theorem PlainParams.update {params : UrlParams} {k v : List UInt8} (h : PlainParams params)
    (hk : Plain k) (hv : Plain v) : PlainParams (Function.update params k (some v)) where
  plain k' v' hkv := by
    rw [Function.update_apply] at hkv
    by_cases heq : k' = k
    · rw [if_pos heq] at hkv
      cases hkv
      exact ⟨heq ▸ hk, hv⟩
    · rw [if_neg heq] at hkv
      exact h.plain k' v' hkv
  listed := by
    obtain ⟨order, ho⟩ := h.listed
    exact ⟨_, ho.update k v⟩

/-- The parameters with those of the list stored one after the other. -/
def storeAll (params : UrlParams) (order : List (List UInt8 × List UInt8)) : UrlParams :=
  order.foldl (fun m p => Function.update m p.1 (some p.2)) params

/-- The last occurrence of a key decides. -/
theorem storeAll_apply (order : List (List UInt8 × List UInt8)) (k : List UInt8) :
    storeAll (fun _ => none) order k = order.reverse.lookup k := by
  induction order using List.reverseRecOn with
  | nil => rfl
  | append_singleton order p ih =>
    rw [storeAll, List.foldl_append, List.foldl_cons, List.foldl_nil, List.reverse_append,
      List.reverse_singleton, List.singleton_append, List.lookup_cons, Function.update_apply]
    by_cases hk : k = p.1
    · rw [if_pos hk, hk, beq_self_eq_true]
    · rw [if_neg hk, beq_false_of_ne hk]
      exact ih

namespace ParamScan

variable {s : ParamScan} {c : UInt8} {x k v text : List UInt8} {m : UrlParams}
  {order : List (List UInt8 × List UInt8)}

theorem read_equalSign : s.read equalSign = { s with isKey := !s.isKey } := if_pos rfl

theorem read_ampersand :
    s.read ampersand = { isKey := !s.isKey, key := [], value := [], params := s.store } := by
  rw [read, if_neg (by decide), if_pos rfl]

theorem read_plain (he : c ≠ equalSign) (ha : c ≠ ampersand) :
    s.read c =
      if s.isKey then { s with key := s.key ++ [c] } else { s with value := s.value ++ [c] } := by
  rw [read, if_neg he, if_neg ha]

/-! ## Plain parameters -/

theorem foldl_key (hx : Plain x) (hk : s.isKey = true) :
    x.foldl read s = { s with key := s.key ++ x } := by
  induction x generalizing s with
  | nil => rw [List.foldl_nil, List.append_nil]
  | cons c x ih =>
    obtain ⟨⟨he, ha⟩, hx⟩ := plain_cons.1 hx
    have hrest := @ih { s with key := s.key ++ [c] } hx hk
    rw [List.foldl_cons, read_plain he ha, if_pos hk, hrest, List.append_assoc,
      List.singleton_append]

theorem foldl_value (hx : Plain x) (hk : s.isKey = false) :
    x.foldl read s = { s with value := s.value ++ x } := by
  induction x generalizing s with
  | nil => rw [List.foldl_nil, List.append_nil]
  | cons c x ih =>
    obtain ⟨⟨he, ha⟩, hx⟩ := plain_cons.1 hx
    have hrest := @ih { s with value := s.value ++ [c] } hx hk
    rw [List.foldl_cons, read_plain he ha, if_neg (ne_true_of_eq_false hk), hrest,
      List.append_assoc, List.singleton_append]

/-- Where the loop stands between two parameters. -/
def between (m : UrlParams) : ParamScan := { start with params := m }

/-- Where the loop stands behind a parameter. -/
def behind (k v : List UInt8) (m : UrlParams) : ParamScan where
  isKey := false
  key := k
  value := v
  params := m

theorem foldl_item (hk : Plain k) (hv : Plain v) :
    (k ++ [equalSign] ++ v).foldl read (between m) = behind k v m := by
  rw [List.foldl_append, List.foldl_append, foldl_key hk rfl, List.foldl_cons, List.foldl_nil,
    read_equalSign, foldl_value hv rfl]
  rfl

theorem read_behind : (behind k v m).read ampersand = between (Function.update m k (some v)) :=
  read_ampersand

theorem finish_behind (hk : k ≠ []) : (behind k v m).finish = Function.update m k (some v) :=
  if_neg hk

/-- Every parameter with an `&` behind it. -/
theorem foldl_items (h : ∀ p ∈ order, Plain p.1 ∧ Plain p.2) :
    (order.flatMap fun p => p.1 ++ [equalSign] ++ p.2 ++ [ampersand]).foldl read (between m) =
      between (storeAll m order) := by
  induction order generalizing m with
  | nil => rfl
  | cons p order ih =>
    rw [List.forall_mem_cons] at h
    rw [List.flatMap_cons, List.foldl_append, List.foldl_append, foldl_item h.1.1 h.1.2,
      List.foldl_cons, List.foldl_nil, read_behind, ih h.2]
    rfl

/-- Every parameter with an `&` in front of it. -/
theorem finish_items (hk : k ≠ []) (h : ∀ p ∈ order, p.1 ≠ [] ∧ Plain p.1 ∧ Plain p.2) :
    ((order.flatMap fun p => [ampersand] ++ (p.1 ++ [equalSign] ++ p.2)).foldl read
      (behind k v m)).finish = storeAll m ((k, v) :: order) := by
  induction order generalizing k v m with
  | nil => exact finish_behind hk
  | cons p order ih =>
    rw [List.forall_mem_cons] at h
    rw [List.flatMap_cons, List.foldl_append, List.foldl_append, List.foldl_cons, List.foldl_nil,
      read_behind, foldl_item h.1.2.1 h.1.2.2, ih h.1.1 h.2]
    rfl

/-! ## Keys and values are plain -/

/-- What was read so far has no `=` and no `&` in it. -/
structure Clean (s : ParamScan) : Prop where
  key : Plain s.key
  value : Plain s.value
  params : PlainParams s.params

namespace Clean

theorem start : Clean .start := ⟨plain_nil, plain_nil, plainParams_none⟩

theorem store (h : Clean s) : PlainParams s.store := h.params.update h.key h.value

theorem read (h : Clean s) : Clean (s.read c) := by
  by_cases he : c = equalSign
  · rw [he, read_equalSign]
    exact ⟨h.key, h.value, h.params⟩
  by_cases ha : c = ampersand
  · rw [ha, read_ampersand]
    exact ⟨plain_nil, plain_nil, h.store⟩
  rw [read_plain he ha]
  split
  · exact ⟨h.key.concat he ha, h.value, h.params⟩
  · exact ⟨h.key, h.value.concat he ha, h.params⟩

theorem foldl (h : Clean s) : Clean (text.foldl ParamScan.read s) := by
  induction text generalizing s with
  | nil => exact h
  | cons c text ih => exact ih h.read

theorem finish (h : Clean s) : PlainParams s.finish := by
  rw [ParamScan.finish]
  split
  · exact h.params
  · exact h.store

end Clean

/-! ## Texts without parameters in them -/

end ParamScan

/-- The loop stores nothing from the text: it has no `&`, and each byte but `=` stands behind an odd
number of `=`. -/
def Silent (text : List UInt8) : Prop :=
  ampersand ∉ text ∧
    ∀ i c, text[i]? = some c → c ≠ equalSign → (text.take i).count equalSign % 2 = 1

theorem silent_nil : Silent [] := by
  refine ⟨List.not_mem_nil, fun i c h => ?_⟩
  cases h

theorem silent_concat {c : UInt8} {text : List UInt8} :
    Silent (text ++ [c]) ↔
      Silent text ∧ c ≠ ampersand ∧ (c ≠ equalSign → text.count equalSign % 2 = 1) := by
  constructor
  · rintro ⟨ha, hodd⟩
    rw [List.mem_append, List.mem_singleton, not_or] at ha
    refine ⟨⟨ha.1, fun i d hd hne => ?_⟩, Ne.symm ha.2, fun hne => ?_⟩
    · have hlt := (List.getElem?_eq_some_iff.1 hd).1
      have h := hodd i d (by rw [List.getElem?_append_left hlt, hd]) hne
      rwa [List.take_append_of_le_length (Nat.le_of_lt hlt)] at h
    · have h := hodd text.length c List.getElem?_concat_length hne
      rwa [List.take_left] at h
  · rintro ⟨⟨ha, hodd⟩, hc, hlast⟩
    refine ⟨?_, fun i d hd hne => ?_⟩
    · rw [List.mem_append, List.mem_singleton, not_or]
      exact ⟨ha, Ne.symm hc⟩
    · rcases Nat.lt_or_ge i text.length with hlt | hge
      · rw [List.getElem?_append_left hlt] at hd
        rw [List.take_append_of_le_length (Nat.le_of_lt hlt)]
        exact hodd i d hd hne
      · obtain ⟨hi, hget⟩ := List.getElem?_eq_some_iff.1 hd
        rw [List.length_append, List.length_singleton] at hi
        obtain rfl : i = text.length := by omega
        rw [List.getElem?_concat_length, Option.some.injEq] at hd
        rw [List.take_left]
        exact hlast (hd ▸ hne)

namespace ParamScan

variable {s : ParamScan} {c : UInt8} {text : List UInt8}

/-- Something was read that is stored in the end. -/
def Stores (s : ParamScan) : Prop := s.key ≠ [] ∨ ∃ k v, s.params k = some v

theorem exists_store : ∃ k v, s.store k = some v :=
  ⟨s.key, s.value, Function.update_self ..⟩

theorem finish_eq_none_iff : s.finish = (fun _ => none) ↔ ¬ Stores s := by
  rw [finish, Stores, not_or, not_not]
  split
  · next hkey =>
    constructor
    · intro h
      refine ⟨hkey, fun ⟨k, v, hkv⟩ => ?_⟩
      rw [h] at hkv
      cases hkv
    · intro h
      funext k
      exact Option.eq_none_iff_forall_ne_some.2 fun v hkv => h.2 ⟨k, v, hkv⟩
  · next hkey =>
    obtain ⟨k, v, hkv⟩ := @exists_store s
    constructor
    · intro h
      rw [h] at hkv
      cases hkv
    · intro h
      exact absurd h.1 hkey

theorem Stores.read (h : Stores s) : Stores (s.read c) := by
  by_cases he : c = equalSign
  · rw [he, read_equalSign]
    exact h
  by_cases ha : c = ampersand
  · rw [ha, read_ampersand]
    exact .inr exists_store
  rw [read_plain he ha]
  split
  · exact .inl (List.append_ne_nil_of_right_ne_nil _ (List.cons_ne_nil _ _))
  · exact h

/-- The flag is the parity of the `=` so far, and nothing is stored while the text is silent. -/
structure Tracks (text : List UInt8) (s : ParamScan) : Prop where
  stores : Stores s ↔ ¬ Silent text
  isKey : Silent text → (s.isKey = true ↔ text.count equalSign % 2 = 0)

namespace Tracks

theorem of_not_silent (hst : Stores s) (hs : ¬ Silent text) : Tracks text s :=
  ⟨⟨fun _ => hs, fun _ => hst⟩, fun h => absurd h hs⟩

theorem of_silent (hst : ¬ Stores s) (hs : Silent text)
    (hk : s.isKey = true ↔ text.count equalSign % 2 = 0) : Tracks text s :=
  ⟨⟨fun h => absurd h hst, fun h => absurd hs h⟩, fun _ => hk⟩

theorem start : Tracks [] .start := by
  refine of_silent ?_ silent_nil ⟨fun _ => rfl, fun _ => rfl⟩
  rintro (h | ⟨k, v, h⟩)
  · exact h rfl
  · cases h

theorem read (h : Tracks text s) : Tracks (text ++ [c]) (s.read c) := by
  by_cases hs : Silent text
  · have hnone : ¬ Stores s := fun hst => h.stores.1 hst hs
    have hkey := h.isKey hs
    by_cases he : c = equalSign
    · rw [he, read_equalSign]
      refine of_silent hnone (silent_concat.2 ⟨hs, by decide, fun hne => absurd rfl hne⟩) ?_
      rw [List.count_append, List.count_singleton_self, Bool.not_eq_true', ← Bool.not_eq_true, hkey]
      omega
    have hcount : (text ++ [c]).count equalSign = text.count equalSign := by
      rw [List.count_append, List.count_singleton, if_neg (by simpa using he), Nat.add_zero]
    by_cases ha : c = ampersand
    · rw [ha, read_ampersand]
      exact of_not_silent (.inr exists_store) fun h' => (silent_concat.1 h').2.1 rfl
    rw [read_plain he ha]
    split
    · next hk =>
      refine of_not_silent (.inl (List.append_ne_nil_of_right_ne_nil _ (List.cons_ne_nil _ _))) ?_
      intro h'
      have hodd := (silent_concat.1 h').2.2 he
      have heven := hkey.1 hk
      omega
    · next hk =>
      refine of_silent hnone (silent_concat.2 ⟨hs, ha, fun _ => ?_⟩) (hcount ▸ hkey)
      rw [hkey] at hk
      omega
  · exact of_not_silent (h.stores.2 hs).read fun h' => hs (silent_concat.1 h').1

theorem foldl : Tracks text (text.foldl ParamScan.read .start) := by
  induction text using List.reverseRecOn with
  | nil => exact start
  | append_singleton text c ih =>
    rw [List.foldl_append]
    exact ih.read

end Tracks

theorem finish_foldl_eq_none_iff :
    (text.foldl read start).finish = (fun _ => none) ↔ Silent text := by
  rw [finish_eq_none_iff, Tracks.foldl.stores, not_not]

end ParamScan

/-! ## Parsing -/

/-- The index of the loop is not to wrap; where it wraps at its start, the text is not to be read as
parameters. -/
def Indexable (text : List UInt8) (hasParams : Prop) : Prop :=
  text.length + 1 < 2 ^ 32 ∨ text.length + 1 = 2 ^ 32 ∧ (hasParams ∨ Silent text)

namespace NetUrl

variable {protocol info q channel : List UInt8} {query : Option (List UInt8)} {url url' : NetUrl}

/-- What is in the parameters of a query. -/
def paramsOf (query : Option (List UInt8)) : UrlParams :=
  query.elim (fun _ => none) fun q => (q.foldl ParamScan.read .start).finish

theorem parses_iff (hp : IsProtocol protocol) (hi : questionMark ∉ info)
    (hparams : url.params = paramsOf query) :
    Parses (urlText protocol info query) url ↔
      (url.protocol = protocol ∧ hostPort info = (url.host, .ok url.port)) ∧
        Indexable (urlText protocol info query) (query ≠ none) := by
  cases query with
  | none =>
    have hsilent := @ParamScan.finish_foldl_eq_none_iff (urlText protocol info none)
    rw [eq_comm] at hsilent
    rw [parses_none hp hi, Indexable, hparams, paramsOf, Option.elim_none, hsilent]
    simp
  | some q =>
    rw [parses_some hp hi, Indexable]
    have hlt : (urlText protocol info (some q)).length < 2 ^ 32 ↔
        (urlText protocol info (some q)).length + 1 < 2 ^ 32 ∨
          (urlText protocol info (some q)).length + 1 = 2 ^ 32 := by
      omega
    rw [hlt]
    simp [hparams, paramsOf]

theorem indexable_of_parses (hp : IsProtocol protocol) (hi : questionMark ∉ info)
    (h : Parses (urlText protocol info query) url)
    (hnone : query = none → url.params = fun _ => none) :
    Indexable (urlText protocol info query) (query ≠ none) := by
  cases query with
  | none => exact ((parses_iff hp hi (hnone rfl)).1 h).2
  | some q =>
    have hlt := ((parses_some hp hi).1 h).2
    rcases Nat.lt_or_eq_of_le (Nat.succ_le_of_lt hlt) with hlt | heq
    · exact .inl hlt
    · exact .inr ⟨heq, .inl (Option.some_ne_none q)⟩

/-- Every text with `://` is the text of a url. -/
theorem exists_urlText_of_find {pos : Nat} (hfind : find (ascii "://") channel = some pos) :
    ∃ protocol info query, channel = urlText protocol info query ∧ IsProtocol protocol ∧
      questionMark ∉ info := by
  obtain ⟨r, hr, -⟩ := eq_append_of_find hfind
  cases hmark : find [questionMark] r with
  | none =>
    refine ⟨channel.take pos, r, none, ?_, find_take hfind, find_eq_none.1 hmark⟩
    rw [urlText_none, ← hr]
  | some n =>
    obtain ⟨q, hq, -⟩ := eq_append_of_find hmark
    refine ⟨channel.take pos, r.take n, some q, ?_, find_take hfind, not_mem_of_find hmark⟩
    rw [urlText, Option.elim_some, ← List.singleton_append, List.append_assoc _ (r.take n),
      ← List.append_assoc (r.take n), ← hq, ← hr]

/-- Every text that is parsed is the text of a url. -/
theorem exists_urlText (h : Parses channel url) :
    ∃ protocol info query, channel = urlText protocol info query ∧ IsProtocol protocol ∧
      questionMark ∉ info := by
  obtain ⟨fuel, h⟩ := h
  rw [parse] at h
  cases hfind : find (ascii "://") channel with
  | none =>
    rw [hfind] at h
    cases h
  | some pos => exact exists_urlText_of_find hfind

theorem params_of_parses (hp : IsProtocol protocol) (hi : questionMark ∉ info)
    (h : Parses (urlText protocol info query) url) :
    (url.protocol = protocol ∧ hostPort info = (url.host, .ok url.port)) ∧
      ∃ s : ParamScan, s.Clean ∧ (url.params = s.params ∨ url.params = s.finish) := by
  cases query with
  | some q =>
    obtain ⟨⟨hprotocol, hhost, hparams⟩, -⟩ := (parses_some hp hi).1 h
    exact ⟨⟨hprotocol, hhost⟩, _, ParamScan.Clean.start.foldl, .inr hparams⟩
  | none =>
    obtain ⟨hparts, ⟨-, hparams⟩ | ⟨-, hparams⟩⟩ := (parses_none hp hi).1 h
    · exact ⟨hparts, _, ParamScan.Clean.start, .inl hparams⟩
    · exact ⟨hparts, _, ParamScan.Clean.start.foldl, .inr hparams⟩

theorem Parses.unique (h : Parses channel url) (h' : Parses channel url') : url = url' := by
  obtain ⟨protocol, info, query, rfl, hp, hi⟩ := exists_urlText h
  obtain ⟨hprotocol, hinfo, s, hs, hparams⟩ := (parses_urlText hp hi).1 h
  obtain ⟨hprotocol', hinfo', s', hs', hparams'⟩ := (parses_urlText hp hi).1 h'
  rw [hinfo, Prod.mk.injEq, Except.ok.injEq] at hinfo'
  apply NetUrl.ext
  · rw [hprotocol, hprotocol']
  · exact hinfo'.1
  · exact hinfo'.2
  · rw [hparams, hparams', hs.unique hs']

/-- What `parse` leaves in a url, and what `encode` needs of it. -/
structure WellFormed (url : NetUrl) : Prop where
  protocol : IsProtocol url.protocol
  host : colon ∉ url.host ∧ questionMark ∉ url.host
  params : PlainParams url.params

theorem host_of_hostPort {host : List UInt8} {port : Except StoiError UInt16}
    (h : hostPort info = (host, port)) : colon ∉ host ∧ host ⊆ info := by
  rw [hostPort] at h
  cases hfind : find [colon] info with
  | none =>
    rw [hfind] at h
    cases h
    exact ⟨find_eq_none.1 hfind, List.Subset.refl _⟩
  | some cPos =>
    rw [hfind] at h
    cases h
    exact ⟨not_mem_of_find hfind, List.take_subset ..⟩

theorem Parses.wellFormed (h : Parses channel url) : WellFormed url := by
  obtain ⟨protocol, info, query, rfl, hp, hi⟩ := exists_urlText h
  obtain ⟨⟨hprotocol, hinfo⟩, s, hclean, hparams⟩ := params_of_parses hp hi h
  have hhost := host_of_hostPort hinfo
  refine ⟨hprotocol ▸ hp, ⟨hhost.1, fun hm => hi (hhost.2 hm)⟩, ?_⟩
  rcases hparams with hparams | hparams
  · rw [hparams]
    exact hclean.params
  · rw [hparams]
    exact hclean.finish

end NetUrl

end SNet.Utils
