import Mathlib.Data.List.TakeWhile
import SNet.Http.UrlIPv6
import SNet.Library.Lines

/-!
# The arrays of `normalize_IPv6`

The tokens of a text are the starts of its pieces between colons, and what is decoded are these
pieces. So whether an access is out of bounds is a matter of the pieces alone
(`normalizeIPv6_eq_ok`, `normalizeIPv6_undefined`).
-/

namespace SNet.Http.Url

/-- The text from each piece on. -/
def starts : (gs : List (List UInt8)) → List (List UInt8)
  | [] => []
  | g :: gs => [colon].intercalate (g :: gs) :: starts gs

variable {g rest next b : List UInt8} {gs tokens : List (List UInt8)} {i k nullPos : Nat}
  {fields : List UInt16} {s stop : List UInt8}

@[simp] theorem length_starts : (starts gs).length = gs.length := by
  induction gs with
  | nil => rfl
  | cons g gs ih => rw [starts, List.length_cons, ih, List.length_cons]

theorem getElem?_starts : (starts gs)[k]? = if k < gs.length then
    some ([colon].intercalate (gs.drop k)) else none := by
  induction gs generalizing k with
  | nil => rfl
  | cons g gs ih =>
    cases k with
    | zero => simp [starts]
    | succ k => simp [starts, ih]

/-! ## Splitting -/

theorem splitTokens_append (hg : colon ∉ g) :
    splitTokens tokens b (g ++ rest) = splitTokens tokens b rest := by
  induction g with
  | nil => rfl
  | cons c g ih =>
    rw [List.mem_cons, not_or] at hg
    rw [List.cons_append, splitTokens, if_neg (Ne.symm hg.1), ih hg.2]

theorem splitTokens_colon : splitTokens tokens b (colon :: rest) =
    if tokens.length < 10 then splitTokens (tokens ++ [b]) rest rest
    else .error (.undefined .tokens) := by
  rw [splitTokens, if_pos rfl, pushToken]
  by_cases h : tokens.length < 10
  · rw [if_pos h, if_pos h]
  · rw [if_neg h, if_neg h]

/-- The tokens that the loop stores are the starts of all pieces but the last. -/
theorem splitTokens_intercalate (hgs : ∀ g ∈ gs, colon ∉ g) (hne : gs ≠ [])
    (hlen : tokens.length ≤ 10) :
    splitTokens tokens ([colon].intercalate gs) ([colon].intercalate gs) =
      if tokens.length + gs.length ≤ 11 then
        .ok (tokens ++ (starts gs).dropLast, [colon].intercalate (gs.drop (gs.length - 1)))
      else .error (.undefined .tokens) := by
  induction gs generalizing tokens with
  | nil => exact absurd rfl hne
  | cons g gs ih =>
    have hg := hgs g List.mem_cons_self
    cases gs with
    | nil =>
      have hsplit : splitTokens tokens g (g ++ []) = splitTokens tokens g [] :=
        splitTokens_append hg
      rw [List.append_nil] at hsplit
      have hle : tokens.length + [g].length ≤ 11 := Nat.succ_le_succ hlen
      rw [List.intercalate_singleton, hsplit, if_pos hle]
      simp [splitTokens, starts]
    | cons g' gs =>
      have htext : [colon].intercalate (g :: g' :: gs) =
          g ++ colon :: [colon].intercalate (g' :: gs) := by
        rw [List.intercalate_cons_cons, List.append_assoc, List.singleton_append]
      have hsplit : splitTokens tokens ([colon].intercalate (g :: g' :: gs))
          ([colon].intercalate (g :: g' :: gs)) = splitTokens tokens
            ([colon].intercalate (g :: g' :: gs)) (colon :: [colon].intercalate (g' :: gs)) := by
        nth_rewrite 2 [htext]
        exact splitTokens_append hg
      rw [hsplit, splitTokens_colon]
      by_cases hlt : tokens.length < 10
      · rw [if_pos hlt, ih (fun x hx => hgs x (List.mem_cons_of_mem g hx)) (List.cons_ne_nil _ _)
          (by rw [List.length_append]; exact hlt)]
        simp [starts, Nat.add_comm, Nat.add_left_comm]
      · have hno : ¬ tokens.length + (g :: g' :: gs).length ≤ 11 := by
          rw [List.length_cons, List.length_cons]
          omega
        rw [if_neg hlt, if_neg hno]

/-! ## Decoding -/

/-- The value of a piece. -/
def fieldValue (g : List UInt8) : UInt16 := g.foldl (fun (f : UInt16) c => f <<< 4 ||| hexField c) 0

theorem fieldValue_cons {c : UInt8} :
    fieldValue (c :: g) = g.foldl (fun (f : UInt16) c => f <<< 4 ||| hexField c) (hexField c) := by
  rw [fieldValue, List.foldl_cons, UInt16.zero_shiftLeft, UInt16.zero_or]

/-- Reading a field ends with the piece, since the next token starts behind it. -/
theorem readField_append {f : UInt16} (hg : colon ∉ g) (hrest : rest = [] ∨ ∃ r, rest = colon :: r)
    (hnext : next.length ≤ rest.length) :
    readField f next (g ++ rest) = g.foldl (fun (f : UInt16) c => f <<< 4 ||| hexField c) f := by
  induction g generalizing f with
  | nil =>
    obtain rfl | ⟨r, rfl⟩ := hrest
    · rfl
    · rw [List.nil_append, readField, if_pos (Or.inr rfl)]
      rfl
  | cons c g ih =>
    rw [List.mem_cons, not_or] at hg
    have hne : ¬ (c :: (g ++ rest) = next ∨ c = colon) := by
      rintro (h | h)
      · rw [← h, List.length_cons, List.length_append] at hnext
        omega
      · exact hg.1 h.symm
    rw [List.cons_append, readField, if_neg hne, ih hg.2, List.foldl_cons]

/-- What the loop over the tokens does with one of them. -/
theorem decodeFields_cons (hg : colon ∉ g)
    (hnext : rest = [] ∧ next = [] ∨ ∃ r, rest = colon :: r ∧ next.length ≤ r.length) :
    decodeFields i nullPos fields ((g ++ rest) :: next :: tokens) =
      if g = [] then decodeFields (i + 1) i fields (next :: tokens)
      else if fields.length < 8 then
        decodeFields (i + 1) nullPos (fields ++ [fieldValue g]) (next :: tokens)
      else .error (.undefined .fields) := by
  have hrest : rest = [] ∨ ∃ r, rest = colon :: r := by
    obtain ⟨h, -⟩ | ⟨r, h, -⟩ := hnext
    · exact Or.inl h
    · exact Or.inr ⟨r, h⟩
  have hlen : next.length ≤ rest.length := by
    obtain ⟨rfl, rfl⟩ | ⟨r, rfl, hr⟩ := hnext
    · exact Nat.le_refl _
    · exact Nat.le_succ_of_le hr
  cases g with
  | nil =>
    rw [List.nil_append, if_pos rfl]
    obtain rfl | ⟨r, rfl⟩ := hrest
    · rw [decodeFields]
    · rw [decodeFields, if_pos (Or.inr rfl)]
  | cons c g =>
    rw [List.mem_cons, not_or] at hg
    have hne : ¬ (c :: (g ++ rest) = next ∨ c = colon) := by
      rintro (h | h)
      · rw [← h, List.length_cons, List.length_append] at hlen
        omega
      · exact hg.1 h.symm
    rw [if_neg (List.cons_ne_nil c g), List.cons_append, decodeFields, if_neg hne,
      readField_append hg.2 hrest hlen, fieldValue_cons]

/-- The index of the last empty piece, counted from `i` on, or `nullPos`. -/
def lastEmpty (i nullPos : Nat) : (gs : List (List UInt8)) → Nat
  | [] => nullPos
  | g :: gs => lastEmpty (i + 1) (if g = [] then i else nullPos) gs

/-- The pieces with something in them. -/
def fieldPieces (gs : List (List UInt8)) : List (List UInt8) := gs.filter (· ≠ [])

/-- The token behind a piece starts where the piece and the colon behind it end, or at the end. -/
theorem exists_next (hk : k ≤ gs.length) (hstop : stop = [] ∨ (starts gs)[k]? = some stop) :
    ∃ next tokens, (starts gs).take k ++ [stop] = next :: tokens ∧ (gs = [] → next = []) ∧
      next.length ≤ ([colon].intercalate gs).length := by
  cases gs with
  | nil =>
    have hstop : stop = [] := by simpa [starts] using hstop
    exact ⟨stop, [], by simp [starts], fun _ => hstop, by rw [hstop]; exact Nat.zero_le _⟩
  | cons g gs =>
    cases k with
    | zero =>
      refine ⟨stop, [], rfl, fun h => absurd h (List.cons_ne_nil g gs), ?_⟩
      obtain rfl | h := hstop
      · exact Nat.zero_le _
      · rw [starts, List.getElem?_cons_zero] at h
        cases h
        exact Nat.le_refl _
    | succ k =>
      exact ⟨_, _, rfl, fun h => absurd h (List.cons_ne_nil g gs), Nat.le_refl _⟩

/-- The first `k` pieces are decoded when the next token, if it is there, starts behind them. -/
theorem decodeFields_take (hgs : ∀ g ∈ gs, colon ∉ g) (hk : k ≤ gs.length)
    (hstop : stop = [] ∨ (starts gs)[k]? = some stop) (hlen : fields.length ≤ 8) :
    decodeFields i nullPos fields ((starts gs).take k ++ [stop]) =
      if fields.length + (fieldPieces (gs.take k)).length ≤ 8 then
        .ok (lastEmpty i nullPos (gs.take k), fields ++ (fieldPieces (gs.take k)).map fieldValue)
      else .error (.undefined .fields) := by
  induction k generalizing gs i nullPos fields with
  | zero => simp [decodeFields, lastEmpty, fieldPieces, hlen]
  | succ k ih =>
    cases gs with
    | nil => exact absurd hk (Nat.not_succ_le_zero k)
    | cons g gs =>
      have hg := hgs g List.mem_cons_self
      have hgs : ∀ x ∈ gs, colon ∉ x := fun x hx => hgs x (List.mem_cons_of_mem g hx)
      have hk := Nat.le_of_succ_le_succ hk
      rw [starts, List.getElem?_cons_succ] at hstop
      obtain ⟨next, tokens, htokens, hnil, hle⟩ := exists_next hk hstop
      have htext : ∃ rest, [colon].intercalate (g :: gs) = g ++ rest ∧
          (rest = [] ∧ next = [] ∨ ∃ r, rest = colon :: r ∧ next.length ≤ r.length) := by
        cases gs with
        | nil => exact ⟨[], by simp, Or.inl ⟨rfl, hnil rfl⟩⟩
        | cons g' gs => exact ⟨_, by simp, Or.inr ⟨_, rfl, hle⟩⟩
      obtain ⟨rest, htext, hrest⟩ := htext
      rw [starts, List.take_succ_cons, List.cons_append, htokens, htext, decodeFields_cons hg hrest,
        ← htokens, List.take_succ_cons, lastEmpty, fieldPieces]
      by_cases hempty : g = []
      · rw [if_pos hempty, ih hgs hk hstop hlen, if_pos hempty, List.filter_cons_of_neg (by simpa)]
        rfl
      · rw [if_neg hempty, if_neg hempty, List.filter_cons_of_pos (by simpa), List.length_cons,
          List.map_cons]
        by_cases hlt : fields.length < 8
        · rw [if_pos hlt, ih hgs hk hstop (by rw [List.length_append]; exact hlt),
            List.length_append, List.length_singleton, Nat.add_assoc, Nat.add_comm 1,
            List.append_assoc, List.singleton_append]
          rfl
        · rw [if_neg hlt, if_neg (by omega)]

/-! ## Expanding -/

section Expand

variable {f : Nat → UInt16} {d last : Nat}

/-- The fields from `nullPos` on are moved up by `d` places. -/
theorem moveFields_eq (hi : nullPos < i) (hlast : i + d ≤ 8) (hd : 0 < d) :
    ∃ f', moveFields nullPos f i (i + d) = .ok (nullPos + d, f') ∧
      (∀ k < nullPos, f' k = f k) ∧ (∀ k, nullPos ≤ k → k < i → f' (k + d) = f k) ∧
      ∀ k, i + d ≤ k → f' k = f k := by
  induction i generalizing f with
  | zero => exact absurd hi (Nat.not_lt_zero _)
  | succ i ih =>
    have hlt : i < 8 ∧ i + d < 8 := by omega
    rw [Nat.add_right_comm, moveFields, if_pos hlt]
    dsimp only
    have hframe : ∀ k, k ≠ i + d → Function.update f (i + d) (f i) k = f k :=
      fun k hk => Function.update_of_ne hk ..
    by_cases heq : i = nullPos
    · rw [if_pos heq, heq]
      refine ⟨_, rfl, fun k hk => ?_, fun k hge hk => ?_, fun k hk => ?_⟩
      · exact Function.update_of_ne (by omega) ..
      · obtain rfl : k = nullPos := by omega
        exact Function.update_self ..
      · exact Function.update_of_ne (by omega) ..
    · rw [if_neg heq]
      obtain ⟨f', hok, hlow, hmid, hhigh⟩ :=
        @ih (Function.update f (i + d) (f i)) (by omega) (by omega)
      refine ⟨f', hok, fun k hk => ?_, fun k hge hk => ?_, fun k hk => ?_⟩
      · rw [hlow k hk, hframe k (by omega)]
      · cases Nat.lt_or_ge k i with
        | inl hlt => rw [hmid k hge hlt, hframe k (by omega)]
        | inr hle =>
          obtain rfl : k = i := by omega
          rw [hhigh (k + d) (Nat.le_refl _), Function.update_self]
      · rw [hhigh k (by omega), hframe k (by omega)]

/-- Without an empty piece in front of the fields the index goes below zero. -/
theorem moveFields_below (hi : i < nullPos) (hle : i < last) (hlast : last ≤ 8) :
    moveFields nullPos f i last = .error (.undefined .below) := by
  induction i generalizing f last with
  | zero => cases last <;> rfl
  | succ i ih =>
    cases last with
    | zero => rfl
    | succ last =>
      rw [moveFields, if_pos (by omega)]
      dsimp only
      rw [if_neg (by omega), ih (by omega) (by omega) (by omega)]

theorem clearFields_eq (hlt : nullPos < last) (hlast : last ≤ 8) :
    ∃ f', clearFields nullPos f last = .ok f' ∧
      ∀ k, f' k = if nullPos ≤ k ∧ k < last then 0 else f k := by
  induction last generalizing f with
  | zero => exact absurd hlt (Nat.not_lt_zero _)
  | succ last ih =>
    rw [clearFields, if_pos (by omega)]
    dsimp only
    by_cases heq : last = nullPos
    · rw [if_pos heq]
      refine ⟨_, rfl, fun k => ?_⟩
      rw [Function.update_apply]
      exact if_congr (by omega) rfl rfl
    · rw [if_neg heq]
      obtain ⟨f', hok, hf'⟩ := @ih (Function.update f last 0) (by omega) (by omega)
      refine ⟨f', hok, fun k => ?_⟩
      rw [hf', Function.update_apply]
      split_ifs <;> first | rfl | omega

end Expand

theorem slice_getD {l : List UInt16} {a n : Nat} (h : a + n ≤ l.length) :
    Memory.slice (fun k => l.getD k 0) a n = (l.drop a).take n := by
  apply List.ext_getElem
  · rw [Memory.length_slice, List.length_take, List.length_drop]
    omega
  · intro k hk hk'
    rw [Memory.length_slice] at hk
    simp [Memory.slice, List.getElem?_eq_getElem (show a + k < l.length by omega)]

theorem slice_replicate {f : Nat → UInt16} {a n : Nat} (h : ∀ k < n, f (a + k) = 0) :
    Memory.slice f a n = List.replicate n 0 := by
  rw [List.eq_replicate_iff]
  refine ⟨Memory.length_slice, fun x hx => ?_⟩
  obtain ⟨k, hk, rfl⟩ := List.mem_map.1 hx
  exact h k (List.mem_range.1 hk)

/-- The zeros are put where the last empty piece was, if there are as many fields in front of it. -/
theorem expandFields_eq {n : Nat} (hle : nullPos ≤ fields.length) (hlt : fields.length < n)
    (hn : n ≤ 8) :
    expandFields nullPos n fields = .ok (fields.take nullPos ++
      List.replicate (n - fields.length) 0 ++ fields.drop nullPos) := by
  obtain ⟨d, rfl⟩ := Nat.exists_eq_add_of_lt hlt
  have hmove : ∃ f', (if fields.length ≠ nullPos then
        moveFields nullPos (fun k => fields.getD k 0) fields.length (fields.length + d + 1)
      else .ok (fields.length + d + 1, fun k => fields.getD k 0)) = .ok (nullPos + (d + 1), f') ∧
      (∀ k < nullPos, f' k = fields.getD k 0) ∧
      ∀ k, nullPos ≤ k → k < fields.length → f' (k + (d + 1)) = fields.getD k 0 := by
    by_cases heq : fields.length = nullPos
    · rw [if_neg (not_not.2 heq), heq]
      exact ⟨_, rfl, fun k _ => rfl, fun k hge hk => absurd hk (by omega)⟩
    · have hlt' : nullPos < fields.length := by omega
      rw [if_pos heq]
      obtain ⟨f', hok, hlow, hmid, -⟩ :=
        moveFields_eq (f := fun k => fields.getD k 0) hlt' hn (Nat.succ_pos d)
      exact ⟨f', hok, hlow, hmid⟩
  obtain ⟨f', hok, hlow, hmid⟩ := hmove
  have hpos : nullPos < nullPos + (d + 1) := by omega
  obtain ⟨f'', hclear, hf⟩ := clearFields_eq (f := f') hpos (by omega)
  have hsum : fields.length + d + 1 = nullPos + (d + 1) + (fields.length - nullPos) := by omega
  have hfront : Memory.slice f'' 0 nullPos = fields.take nullPos := by
    have hget : Memory.slice (fun k => fields.getD k 0) 0 nullPos = fields.take nullPos := by
      rw [slice_getD (by omega), List.drop_zero]
    rw [← hget]
    refine Memory.slice_congr fun k hk => ?_
    rw [Nat.zero_add, hf, if_neg (by omega), hlow k hk]
  have hzeros : Memory.slice f'' nullPos (d + 1) = List.replicate (d + 1) 0 := by
    refine slice_replicate fun k hk => ?_
    rw [hf, if_pos (by omega)]
  have hback : Memory.slice f'' (nullPos + (d + 1)) (fields.length - nullPos) =
      fields.drop nullPos := by
    rw [← List.take_length (l := fields.drop nullPos), List.length_drop, ← slice_getD (by omega)]
    refine Memory.slice_congr fun k hk => ?_
    rw [hf, if_neg (by omega), Nat.add_right_comm, hmid _ (by omega) (by omega)]
  rw [expandFields, if_pos hlt, hok]
  dsimp only
  rw [hclear]
  dsimp only
  rw [hsum, Memory.slice_add, Memory.slice_add, Nat.zero_add, Nat.zero_add, hfront, hzeros, hback,
    ← hsum, Nat.add_assoc, Nat.add_sub_cancel_left]

theorem expandFields_below {n : Nat} (hgt : fields.length < nullPos) (hlt : fields.length < n)
    (hn : n ≤ 8) : expandFields nullPos n fields = .error (.undefined .below) := by
  rw [expandFields, if_pos hlt, if_pos (Nat.ne_of_lt hgt), moveFields_below hgt hlt hn]

/-! ## The whole -/

/-- The text between colons, but for one colon at each end of it. -/
def pieces (s : List UInt8) : List (List UInt8) :=
  let p := if s.head? = some colon then s.tail else s
  let p := if s.getLast? = some colon then p.dropLast else p
  p.splitOn colon

/-- How many starts of pieces are stored: the last one has no place behind eight others. -/
def tokenCount (gs : List (List UInt8)) : Nat := if gs.length ≤ 8 then gs.length else gs.length - 1

/-- The text of the last token. -/
def lastToken (gs : List (List UInt8)) : List UInt8 :=
  [colon].intercalate (gs.drop (tokenCount gs - 1))

/-- What is taken for an IPv4 address. -/
def trailing (gs : List (List UInt8)) : Option (List UInt8) :=
  if 5 < (lastToken gs).length then some (lastToken gs) else none

/-- The pieces that are decoded. -/
def decoded (gs : List (List UInt8)) : List (List UInt8) :=
  gs.take (if (trailing gs).isSome then tokenCount gs - 1 else tokenCount gs)

/-- How many fields there are to be. -/
def fieldCount (gs : List (List UInt8)) : Nat := if (trailing gs).isSome then 6 else 8

/-- The arrays and the indices suffice for the pieces: there are no more than ten tokens and eight
fields, and when fields are missing there are as many as tokens in front of the last empty one. -/
structure Fits (gs : List (List UInt8)) : Prop where
  tokens : gs.length ≤ 10
  fields : (fieldPieces (decoded gs)).length ≤ 8
  zeros : fieldCount gs ≤ (fieldPieces (decoded gs)).length ∨
    lastEmpty 0 8 (decoded gs) ≤ (fieldPieces (decoded gs)).length

/-- The fields that are left in the array. -/
def groups (gs : List (List UInt8)) : List UInt16 :=
  let fields := (fieldPieces (decoded gs)).map fieldValue
  if fields.length < fieldCount gs then
    fields.take (lastEmpty 0 8 (decoded gs)) ++
      List.replicate (fieldCount gs - fields.length) 0 ++ fields.drop (lastEmpty 0 8 (decoded gs))
  else fields.take (fieldCount gs)

theorem pieces_ne_nil : pieces s ≠ [] := List.splitOn_ne_nil colon _

theorem storeTokens_eq (hgs : ∀ g ∈ gs, colon ∉ g) (hne : gs ≠ []) :
    storeTokens ([colon].intercalate gs) =
      if gs.length ≤ 11 then .ok ((starts gs).take (tokenCount gs))
      else .error (.undefined .tokens) := by
  have hpos := List.length_pos_iff.2 hne
  rw [storeTokens, splitTokens_intercalate hgs hne (by decide), List.length_nil, Nat.zero_add,
    List.nil_append]
  by_cases heleven : gs.length ≤ 11
  · have hlast : (starts gs)[gs.length - 1]? =
        some ([colon].intercalate (gs.drop (gs.length - 1))) := by
      rw [getElem?_starts, if_pos (by omega)]
    have htake := List.take_add_one (l := starts gs) (i := gs.length - 1)
    rw [Nat.sub_add_cancel hpos, hlast] at htake
    rw [if_pos heleven, if_pos heleven]
    dsimp only
    rw [List.dropLast_eq_take, List.length_take, length_starts, Nat.min_eq_left (Nat.sub_le _ _),
      tokenCount]
    by_cases hle : gs.length ≤ 8
    · rw [if_pos (by omega), if_pos hle, htake, pushToken, if_pos]
      · rfl
      · rw [List.length_take, length_starts]
        omega
    · rw [if_neg (by omega), if_neg hle]
  · rw [if_neg heleven, if_neg heleven]

theorem tokenCount_pos (hne : gs ≠ []) : 0 < tokenCount gs := by
  have hpos := List.length_pos_iff.2 hne
  rw [tokenCount]
  split <;> omega

theorem tokenCount_le : tokenCount gs ≤ gs.length := by
  rw [tokenCount]
  split <;> omega

/-- The entries of the array `tokens` for the pieces, and what is read from them. -/
theorem decode_tokens (hgs : ∀ g ∈ gs, colon ∉ g) (hne : gs ≠ []) :
    decodeFields 0 8 [] ((((starts gs).take (tokenCount gs)) ++ [[]]).take
        ((if (trailing gs).isSome then tokenCount gs - 1 else tokenCount gs) + 1)) =
      if (fieldPieces (decoded gs)).length ≤ 8 then
        .ok (lastEmpty 0 8 (decoded gs), (fieldPieces (decoded gs)).map fieldValue)
      else .error (.undefined .fields) := by
  have hpos := tokenCount_pos hne
  have hle : tokenCount gs ≤ gs.length := tokenCount_le
  have hlen : ((starts gs).take (tokenCount gs)).length = tokenCount gs := by
    rw [List.length_take, length_starts, Nat.min_eq_left hle]
  rw [decoded]
  split
  · have htake : ((starts gs).take (tokenCount gs) ++ [[]]).take (tokenCount gs - 1 + 1) =
        (starts gs).take (tokenCount gs - 1) ++
          [[colon].intercalate (gs.drop (tokenCount gs - 1))] := by
      rw [Nat.sub_add_cancel hpos, List.take_left' hlen]
      nth_rewrite 1 [← Nat.sub_add_cancel hpos]
      rw [List.take_add_one, getElem?_starts, if_pos (by omega)]
      rfl
    rw [htake, decodeFields_take hgs (by omega) (Or.inr _) (Nat.zero_le _)]
    · simp
    · rw [getElem?_starts, if_pos (by omega)]
  · have htake : ((starts gs).take (tokenCount gs) ++ [[]]).take (tokenCount gs + 1) =
        (starts gs).take (tokenCount gs) ++ [[]] := by
      apply List.take_of_length_le
      rw [List.length_append, hlen]
      exact Nat.le_refl _
    rw [htake, decodeFields_take hgs hle (Or.inl rfl) (Nat.zero_le _)]
    simp

/-- The loops of `normalize_IPv6` on the pieces of a text, one after the other. -/
theorem normalizeIPv6_pieces (hs : isIpv6 s) (hne : s ≠ [colon, colon]) :
    normalizeIPv6 s =
      if (pieces s).length ≤ 10 then
        (if (fieldPieces (decoded (pieces s))).length ≤ 8 then
          .ok (lastEmpty 0 8 (decoded (pieces s)), (fieldPieces (decoded (pieces s))).map fieldValue)
        else .error (.undefined .fields)) >>= fun decoding =>
          expandFields decoding.1 (fieldCount (pieces s)) decoding.2 >>= fun fields =>
            .ok (encodeFields fields (trailing (pieces s)))
      else .error (.undefined .tokens) := by
  have hgs : ∀ g ∈ pieces s, colon ∉ g := fun g hg => Lines.not_mem_of_mem_splitOn hg
  have hpieces := pieces_ne_nil (s := s)
  have hstore := storeTokens_eq hgs hpieces
  have htext : [colon].intercalate (pieces s) =
      if s.getLast? = some colon then (if s.head? = some colon then s.tail else s).dropLast
      else if s.head? = some colon then s.tail else s := List.intercalate_splitOn colon
  have hpos := tokenCount_pos hpieces
  have hle : tokenCount (pieces s) ≤ (pieces s).length := tokenCount_le
  have hlen : ((starts (pieces s)).take (tokenCount (pieces s))).length = tokenCount (pieces s) := by
    rw [List.length_take, length_starts, Nat.min_eq_left hle]
  have hpush : pushToken ((starts (pieces s)).take (tokenCount (pieces s))) [] =
      if tokenCount (pieces s) < 10 then
        .ok ((starts (pieces s)).take (tokenCount (pieces s)) ++ [[]])
      else .error (.undefined .tokens) := by
    rw [pushToken, hlen]
  have hlast : readToken ((starts (pieces s)).take (tokenCount (pieces s)) ++ [[]])
      (tokenCount (pieces s) - 1) = .ok (lastToken (pieces s)) := by
    rw [readToken, List.getElem?_append_left (by omega), List.getElem?_take_of_lt (by omega),
      getElem?_starts, if_pos (by omega)]
    rfl
  have hstop : readToken ((starts (pieces s)).take (tokenCount (pieces s)) ++ [[]])
      (tokenCount (pieces s)) = .ok [] := by
    rw [readToken, List.getElem?_append_right (by omega), hlen, Nat.sub_self]
    rfl
  have hten : (pieces s).length ≤ 10 ↔ (pieces s).length ≤ 11 ∧ tokenCount (pieces s) < 10 := by
    rw [tokenCount]
    split <;> omega
  rw [htext] at hstore
  rw [normalizeIPv6, hs, if_neg (by decide), if_neg hne]
  simp only [bind, Except.bind, hstore, hten]
  by_cases heleven : (pieces s).length ≤ 11
  · by_cases hcount : tokenCount (pieces s) < 10
    · have htrailing : (if 5 < (lastToken (pieces s)).length then some (lastToken (pieces s))
          else none) = trailing (pieces s) := rfl
      simp only [if_pos heleven, hlen, hpush, if_pos hcount, if_pos (And.intro heleven hcount),
        hlast, hstop, List.length_nil, Nat.sub_zero, List.take_length, htrailing]
      rw [decode_tokens hgs hpieces]
      rfl
    · simp only [if_pos heleven, hpush, if_neg hcount, if_neg (fun h => hcount (And.right h))]
  · simp only [if_neg heleven, if_neg (fun h => heleven (And.left h))]

theorem fieldCount_le : fieldCount gs ≤ 8 := by
  rw [fieldCount]
  split <;> decide

/-- When the arrays suffice, the text of the fields is returned. -/
theorem normalizeIPv6_eq_ok (hs : isIpv6 s) (hne : s ≠ [colon, colon]) (h : Fits (pieces s)) :
    normalizeIPv6 s = .ok (encodeFields (groups (pieces s)) (trailing (pieces s))) := by
  have hexpand : expandFields (lastEmpty 0 8 (decoded (pieces s))) (fieldCount (pieces s))
      ((fieldPieces (decoded (pieces s))).map fieldValue) = .ok (groups (pieces s)) := by
    have hzeros := h.zeros
    rw [← List.length_map (f := fieldValue)] at hzeros
    rw [groups]
    split
    · next hlt =>
      exact expandFields_eq (hzeros.resolve_left (Nat.not_le_of_lt hlt)) hlt fieldCount_le
    · next hge => rw [expandFields, if_neg hge]
  rw [normalizeIPv6_pieces hs hne, if_pos h.tokens, if_pos h.fields]
  simp only [bind, Except.bind, hexpand]

/-- When they do not, something undefined is done. -/
theorem normalizeIPv6_undefined (hs : isIpv6 s) (hne : s ≠ [colon, colon])
    (h : ¬ Fits (pieces s)) : ∃ fault, normalizeIPv6 s = .error (.undefined fault) := by
  rw [normalizeIPv6_pieces hs hne]
  by_cases hten : (pieces s).length ≤ 10
  · by_cases height : (fieldPieces (decoded (pieces s))).length ≤ 8
    · have hzeros : ¬ (fieldCount (pieces s) ≤ (fieldPieces (decoded (pieces s))).length ∨
          lastEmpty 0 8 (decoded (pieces s)) ≤ (fieldPieces (decoded (pieces s))).length) :=
        fun hz => h ⟨hten, height, hz⟩
      rw [not_or, Nat.not_le, Nat.not_le, ← List.length_map (f := fieldValue)] at hzeros
      refine ⟨.below, ?_⟩
      rw [if_pos hten, if_pos height]
      simp only [bind, Except.bind, expandFields_below hzeros.2 hzeros.1 fieldCount_le]
    · exact ⟨.fields, by rw [if_pos hten, if_neg height]; rfl⟩
  · exact ⟨.tokens, by rw [if_neg hten]⟩

end SNet.Http.Url
