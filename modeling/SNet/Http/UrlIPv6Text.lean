import SNet.Http.UrlIPv6Bounds
import SNet.Library.IPv6

/-!
# Normalized IPv6 addresses

`normalize_IPv6` stays in its arrays for every text of an IPv6 address, and what it returns denotes
the same address unless all eight groups are zero and are written as groups (`ipv6Right_iff`).
-/

namespace SNet.Http.Url

variable {fields left right : List UInt16} {tail gs : List (List UInt8)} {vs : List Nat}
  {g s : List UInt8} {c : UInt8}

/-! ## Fields -/

theorem hexField_byte : ∀ n < 256, IPv6.isHex (UInt8.ofNat n) = true →
    (hexField (UInt8.ofNat n)).toNat = IPv6.hexValue (UInt8.ofNat n) ∧
      IPv6.hexValue (UInt8.ofNat n) < 16 := by
  decide +kernel

theorem toNat_hexField (h : IPv6.isHex c) :
    (hexField c).toNat = IPv6.hexValue c ∧ IPv6.hexValue c < 16 := by
  have hbyte := hexField_byte c.toNat c.toNat_lt
  rw [UInt8.ofNat_toNat] at hbyte
  exact hbyte h

theorem toNat_shift_or {f d : UInt16} (hf : f.toNat * 16 < 2 ^ 16) (hd : d.toNat < 16) :
    (f <<< 4 ||| d).toNat = 16 * f.toNat + d.toNat := by
  rw [UInt16.toNat_or, UInt16.toNat_shiftLeft]
  have hshift : f.toNat <<< (UInt16.toNat 4 % 16) % 2 ^ 16 = f.toNat <<< 4 := by
    have hfour : UInt16.toNat 4 % 16 = 4 := rfl
    rw [hfour, Nat.shiftLeft_eq]
    exact Nat.mod_eq_of_lt hf
  rw [hshift, ← Nat.shiftLeft_add_eq_or_of_lt hd, Nat.shiftLeft_eq, Nat.mul_comm]

/-- A field has the value of its digits while they are not too many. -/
theorem toNat_foldl_hexField {f : UInt16} (hg : ∀ c ∈ g, IPv6.isHex c)
    (hf : (f.toNat + 1) * 16 ^ g.length ≤ 2 ^ 16) :
    (g.foldl (fun (f : UInt16) c => f <<< 4 ||| hexField c) f).toNat =
      g.foldl (fun n c => 16 * n + IPv6.hexValue c) f.toNat := by
  induction g generalizing f with
  | nil => rfl
  | cons c g ih =>
    obtain ⟨hval, hlt⟩ := toNat_hexField (hg c List.mem_cons_self)
    have hpow := Nat.one_le_pow g.length 16 (by decide)
    rw [List.length_cons, Nat.pow_succ, Nat.mul_comm _ 16, ← Nat.mul_assoc] at hf
    have hsmall : (f.toNat + 1) * 16 ≤ 2 ^ 16 := Nat.le_trans (Nat.le_mul_of_pos_right _ hpow) hf
    have hstep := toNat_shift_or (f := f) (d := hexField c) (by omega) (by omega)
    rw [hval] at hstep
    rw [List.foldl_cons, List.foldl_cons, ih (fun x hx => hg x (List.mem_cons_of_mem c hx)), hstep]
    rw [hstep]
    exact Nat.le_trans (Nat.mul_le_mul_right _ (by omega)) hf

theorem toNat_fieldValue (hg : IPv6.Hextet g) : (fieldValue g).toNat = IPv6.number g := by
  have hpow : 16 ^ g.length ≤ 16 ^ 4 := Nat.pow_le_pow_right (by decide) hg.length_le
  exact toNat_foldl_hexField hg.hex (by rw [UInt16.toNat_zero, Nat.zero_add, Nat.one_mul]; exact hpow)

/-! ## Runs of zeros -/

/-- The fields have a run of zeros there. -/
def IsRun (fields : List UInt16) (pos len : Nat) : Prop :=
  0 < len ∧ pos + len ≤ fields.length ∧ ∀ k, pos ≤ k → k < pos + len → fields[k]? = some 0

/-- What the search has found so far: a run of zeros, or nothing. -/
def Found (fields : List UInt16) (best : Nat × Nat) : Prop :=
  best = (fields.length, 0) ∨ IsRun fields best.1 best.2

theorem IsRun.eq_append {pos len : Nat} (h : IsRun fields pos len) : fields =
    fields.take pos ++ List.replicate len 0 ++ fields.drop (pos + len) := by
  obtain ⟨-, hle, hzero⟩ := h
  have hmid : (fields.drop pos).take len = List.replicate len 0 := by
    apply List.ext_getElem?
    intro k
    rw [List.getElem?_replicate]
    cases Nat.lt_or_ge k len with
    | inl hlt => rw [List.getElem?_take_of_lt hlt, List.getElem?_drop,
        hzero _ (Nat.le_add_right _ _) (Nat.add_lt_add_left hlt pos), if_pos hlt]
    | inr hge =>
      rw [if_neg (Nat.not_lt_of_le hge)]
      exact List.getElem?_eq_none (by rw [List.length_take]; omega)
  rw [← hmid, List.append_assoc, ← List.drop_drop, List.take_append_drop, List.take_append_drop]

theorem isRun_one {i : Nat} (h : fields[i]? = some 0) : IsRun fields i 1 := by
  have hlt : i < fields.length := (List.getElem?_eq_some_iff.1 h).1
  refine ⟨Nat.one_pos, hlt, fun k hge hk => ?_⟩
  obtain rfl : k = i := Nat.le_antisymm (Nat.le_of_lt_succ hk) hge
  exact h

/-- A zero behind a run makes it longer. -/
theorem IsRun.succ {first i : Nat} (h : IsRun fields first (i - first)) (hlt : first < i)
    (hi : fields[i]? = some 0) : IsRun fields first (i + 1 - first) := by
  have hend : i < fields.length := (List.getElem?_eq_some_iff.1 hi).1
  refine ⟨by omega, by omega, fun k hge hk => ?_⟩
  cases Nat.lt_or_ge k i with
  | inl hki => exact h.2.2 k hge (by omega)
  | inr hki =>
    obtain rfl : k = i := by omega
    exact hi

theorem found_locateZeros {done rest : List UInt16} {i nullPos nullLen : Nat} {first : Option Nat}
    (hfields : fields = done ++ rest) (hi : done.length = i) (hbest : Found fields (nullPos, nullLen))
    (hfirst : ∀ f, first = some f → f < i ∧ IsRun fields f (i - f)) :
    Found fields (locateZeros i first nullPos nullLen rest) := by
  induction rest generalizing done i first nullPos nullLen with
  | nil =>
    cases first with
    | none => exact hbest
    | some f =>
      rw [locateZeros]
      split
      · exact Or.inr (hfirst f rfl).2
      · exact hbest
  | cons x rest ih =>
    have hnext : fields = (done ++ [x]) ++ rest := by
      rw [List.append_assoc, List.singleton_append]
      exact hfields
    have hlen : (done ++ [x]).length = i + 1 := by
      rw [List.length_append, List.length_singleton, hi]
    have hx : fields[i]? = some x := by
      rw [hfields, List.getElem?_append_right hi.le, hi, Nat.sub_self]
      rfl
    cases first with
    | none =>
      rw [locateZeros]
      apply ih hnext hlen hbest
      intro f hf
      split at hf
      · cases hf
      · next hzero =>
        cases hf
        rw [not_not.1 hzero] at hx
        rw [Nat.add_sub_cancel_left]
        exact ⟨Nat.lt_succ_self i, isRun_one hx⟩
    | some f =>
      obtain ⟨hlt, hrun⟩ := hfirst f rfl
      rw [locateZeros]
      by_cases hzero : x = 0
      · rw [if_pos hzero]
        apply ih hnext hlen hbest
        intro f' hf'
        cases hf'
        rw [hzero] at hx
        exact ⟨Nat.lt_succ_of_lt hlt, hrun.succ hlt hx⟩
      · rw [if_neg hzero]
        split
        · exact ih hnext hlen (Or.inr hrun) (fun f' hf' => by cases hf')
        · exact ih hnext hlen hbest (fun f' hf' => by cases hf')

/-! ## The text of the fields -/

/-- Texts with a colon in front of each. -/
def withColons (ts : List (List UInt8)) : List UInt8 := ts.flatMap (colon :: ·)

theorem intercalate_cons (t : List UInt8) (ts : List (List UInt8)) :
    [colon].intercalate (t :: ts) = t ++ withColons ts := by
  induction ts generalizing t with
  | nil => simp [withColons]
  | cons t' ts ih =>
    rw [List.intercalate_cons_cons, ih]
    simp [withColons]

theorem hexFields_eq : hexFields fields = withColons (fields.map hexText) := by
  rw [hexFields, withColons, List.flatMap_map]

theorem withColons_append (ts us : List (List UInt8)) :
    withColons (ts ++ us) = withColons ts ++ withColons us := List.flatMap_append

theorem appendIpv4_eq {str : List UInt8} (ht : IPv6.Tail tail vs) :
    appendIpv4 str tail.head? = str ++ withColons tail := by
  cases ht with
  | none => exact (List.append_nil str).symm
  | quad => simp [withColons, appendIpv4]

theorem hexText_eq (fields : List UInt16) :
    fields.map hexText = (fields.map UInt16.toNat).map IPv6.writeHex := by
  rw [List.map_map]
  rfl

theorem hexText_append {f : UInt16} :
    hexText f ++ hexFields fields = [colon].intercalate ((f :: fields).map hexText) := by
  rw [List.map_cons, intercalate_cons, hexFields_eq]

theorem tail_length (ht : IPv6.Tail tail vs) (hlen : fields.length + vs.length = 8) :
    fields.length = 8 ∧ tail = [] ∨ fields.length = 6 ∧ ∃ q, tail = [q] := by
  cases ht with
  | none => exact Or.inl ⟨hlen, rfl⟩
  | quad => exact Or.inr ⟨Nat.add_right_cancel hlen, _, rfl⟩

/-- Without two zeros in a row all fields are written. -/
theorem encodeFields_whole {pos len : Nat} (ht : IPv6.Tail tail vs)
    (hlen : fields.length + vs.length = 8)
    (hzeros : locateZeros 0 none fields.length 0 fields = (pos, len))
    (hshort : len = 1 ∨ len = 0 ∧ pos = fields.length) :
    encodeFields fields tail.head? = [colon].intercalate (fields.map hexText ++ tail) := by
  have hpos : (if len = 1 then (fields.length, 1) else (pos, len)) = (fields.length, len) := by
    obtain rfl | ⟨rfl, rfl⟩ := hshort <;> rfl
  have hcases := tail_length ht hlen
  have hne : fields.length ≠ 0 := by omega
  have hlast : ¬ (fields.length + len = 8 ∧ len ≠ 0) := by omega
  have hdrop : fields.drop (fields.length + len) = [] :=
    List.drop_eq_nil_of_le (Nat.le_add_right _ _)
  have hnil : hexFields [] = [] := rfl
  rw [encodeFields, hzeros]
  dsimp only
  rw [hpos, encodeFront, if_neg hne]
  dsimp only
  rw [if_neg hlast, if_neg (Nat.lt_irrefl _), List.take_length, hdrop, appendIpv4_eq ht, hnil,
    List.append_nil]
  cases fields with
  | nil => exact absurd rfl hne
  | cons f fields =>
    rw [List.getD_cons_zero, List.drop_one, List.tail_cons, hexFields_eq, List.append_assoc,
      ← withColons_append, ← intercalate_cons]
    rfl

/-- The text in front of the zeros, and the first colon of the two. -/
theorem encodeFront_run {pos len : Nat} (hrun : IsRun fields pos len) :
    encodeFront fields pos len =
      (if pos = 0 then [colon]
      else [colon].intercalate ((fields.take pos).map hexText) ++ [colon] ++
        if pos + len = 8 then [colon] else [], pos + len) := by
  obtain ⟨hpos, hend, -⟩ := hrun
  rw [encodeFront]
  by_cases hzero : pos = 0
  · rw [if_pos hzero, if_pos hzero, hzero, Nat.zero_add]
  · obtain ⟨p, rfl⟩ := Nat.exists_eq_succ_of_ne_zero hzero
    cases fields with
    | nil => exact absurd hend (Nat.not_le_of_lt (Nat.lt_of_lt_of_le hpos (Nat.le_add_left _ _)))
    | cons f fields =>
      have hlt : p.succ < (f :: fields).length := by omega
      rw [if_neg hzero, if_neg hzero, List.take_succ_cons, List.drop_one, List.tail_cons,
        List.getD_cons_zero, hexText_append]
      dsimp only
      rw [if_pos hlt]
      by_cases height : p.succ + len = 8
      · rw [if_pos ⟨height, hpos.ne'⟩, if_pos height]
      · rw [if_neg (fun h => height h.1), if_neg height, List.append_nil]

theorem encodeFields_run {pos len : Nat} (ht : IPv6.Tail tail vs)
    (hzeros : locateZeros 0 none fields.length 0 fields = (pos, len))
    (hrun : IsRun fields pos len) (htwo : 2 ≤ len) :
    encodeFields fields tail.head? = (encodeFront fields pos len).1 ++
      withColons ((fields.drop (pos + len)).map hexText ++ tail) := by
  have hpos : (if len = 1 then (fields.length, 1) else (pos, len)) = (pos, len) :=
    if_neg (by omega)
  rw [encodeFields, hzeros]
  dsimp only
  rw [hpos, encodeFront_run hrun, appendIpv4_eq ht, withColons_append, ← hexFields_eq,
    List.append_assoc]

theorem toNat_lt_of_mem {fields : List UInt16} : ∀ f ∈ fields.map UInt16.toNat, f < 2 ^ 16 := by
  intro f hf
  obtain ⟨x, -, rfl⟩ := List.mem_map.1 hf
  exact x.toNat_lt

theorem map_toNat_replicate (n : Nat) :
    (List.replicate n (0 : UInt16)).map UInt16.toNat = List.replicate n 0 := List.map_replicate

/-- With two zeros in a row or more, they are left out between two colons. -/
theorem encodeFields_short {pos len : Nat} (ht : IPv6.Tail tail vs)
    (hlen : fields.length + vs.length = 8) (hne : ¬ (tail = [] ∧ fields = List.replicate 8 0))
    (hzeros : locateZeros 0 none fields.length 0 fields = (pos, len))
    (hrun : IsRun fields pos len) (htwo : 2 ≤ len) :
    encodeFields fields tail.head? = IPv6.join ((fields.take pos).map hexText) ++ [58, 58] ++
      IPv6.join ((fields.drop (pos + len)).map hexText ++ tail) := by
  have hcases := tail_length ht hlen
  have happend := hrun.eq_append
  have hrest := hrun.2.1
  rw [encodeFields_run ht hzeros hrun htwo, encodeFront_run hrun]
  cases hright : (fields.drop (pos + len)).map hexText ++ tail with
  | nil =>
    obtain ⟨hdrop, rfl⟩ := List.append_eq_nil_iff.1 hright
    rw [List.map_eq_nil_iff, List.drop_eq_nil_iff] at hdrop
    have height : pos + len = 8 := by
      obtain ⟨h, -⟩ | ⟨-, q, hq⟩ := hcases
      · omega
      · cases hq
    have hpos : pos ≠ 0 := by
      rintro rfl
      rw [List.take_zero, List.nil_append, Nat.zero_add, List.drop_eq_nil_of_le (by omega),
        List.append_nil] at happend
      rw [Nat.zero_add] at height
      exact hne ⟨rfl, height ▸ happend⟩
    rw [if_neg hpos, if_pos height]
    simp [IPv6.join, withColons, colon]
  | cons t ts =>
    have hlt : pos + len ≠ 8 := by
      intro height
      obtain ⟨h, rfl⟩ | ⟨h, -⟩ := hcases
      · rw [height, List.drop_eq_nil_of_le (by omega)] at hright
        cases hright
      · omega
    have hjoin : IPv6.join (t :: ts) = t ++ withColons ts := intercalate_cons t ts
    have hcolons : withColons (t :: ts) = colon :: (t ++ withColons ts) := by
      rw [withColons, List.flatMap_cons, List.cons_append]
      rfl
    rw [hjoin, hcolons, if_neg hlt, List.append_nil]
    by_cases hpos : pos = 0
    · rw [if_pos hpos, hpos, List.take_zero]
      rfl
    · rw [if_neg hpos]
      simp [IPv6.join, colon]

/-- **The text of the fields denotes them**, unless they are eight zeros. -/
theorem denotes_encodeFields (ht : IPv6.Tail tail vs) (hlen : fields.length + vs.length = 8)
    (hne : ¬ (tail = [] ∧ fields = List.replicate 8 0)) :
    IPv6.Denotes (encodeFields fields tail.head?) (fields.map UInt16.toNat ++ vs) := by
  obtain ⟨pos, len, hzeros⟩ : ∃ pos len, locateZeros 0 none fields.length 0 fields = (pos, len) :=
    ⟨_, _, rfl⟩
  have hfound : Found fields (pos, len) := by
    rw [← hzeros]
    exact found_locateZeros (List.nil_append fields).symm rfl (Or.inl rfl) (fun f hf => by cases hf)
  by_cases htwo : 2 ≤ len
  · have hrun : IsRun fields pos len := by
      obtain h | h := hfound
      · cases h
        exact absurd htwo (by decide)
      · exact h
    have hrest := hrun.2.1
    have hdenotes := IPv6.denotes_run (k := len) (@toNat_lt_of_mem (fields.take pos))
      (@toNat_lt_of_mem (fields.drop (pos + len))) ht hrun.1
      (by
        rw [List.length_map, List.length_map, List.length_take, List.length_drop]
        omega)
    rw [← map_toNat_replicate, ← List.map_append, ← List.map_append, ← hrun.eq_append,
      ← hexText_eq, ← hexText_eq] at hdenotes
    rw [encodeFields_short ht hlen hne hzeros hrun htwo]
    exact hdenotes
  · have hshort : len = 1 ∨ len = 0 ∧ pos = fields.length := by
      obtain h | h := hfound
      · cases h
        exact Or.inr ⟨rfl, rfl⟩
      · have := h.1
        dsimp only at this
        omega
    rw [encodeFields_whole ht hlen hzeros hshort, hexText_eq]
    exact IPv6.denotes_groups toNat_lt_of_mem ht (by rwa [List.length_map])

/-! ## The pieces of an address -/

section Pieces

variable {ls rs : List (List UInt8)}

theorem join_cons (g : List UInt8) : IPv6.join (g :: gs) = g ++ withColons gs := intercalate_cons g gs

theorem join_ne_nil (hgs : ∀ g ∈ gs, IPv6.Piece g) (hne : gs ≠ []) : IPv6.join gs ≠ [] := by
  cases gs with
  | nil => exact absurd rfl hne
  | cons g gs =>
    rw [join_cons]
    exact List.append_ne_nil_of_left_ne_nil (hgs g List.mem_cons_self).ne_nil _

theorem head?_join_ne (hgs : ∀ g ∈ gs, IPv6.Piece g) : (IPv6.join gs).head? ≠ some colon := by
  cases gs with
  | nil => exact (Option.some_ne_none colon).symm
  | cons g gs =>
    have hg := hgs g List.mem_cons_self
    rw [join_cons, List.head?_append_of_ne_nil _ hg.ne_nil]
    exact fun h => hg.colon (List.mem_of_head? h)

theorem getLast?_join_ne (hgs : ∀ g ∈ gs, IPv6.Piece g) :
    (IPv6.join gs).getLast? ≠ some colon := by
  induction gs with
  | nil => exact (Option.some_ne_none colon).symm
  | cons g gs ih =>
    have hg := hgs g List.mem_cons_self
    have hgs : ∀ x ∈ gs, IPv6.Piece x := fun x hx => hgs x (List.mem_cons_of_mem g hx)
    cases gs with
    | nil =>
      rw [IPv6.join, List.intercalate_singleton]
      exact fun h => hg.colon (List.mem_of_getLast? h)
    | cons g' gs =>
      have hjoin : IPv6.join (g :: g' :: gs) = g ++ [58] ++ IPv6.join (g' :: gs) :=
        List.intercalate_cons_cons
      rw [hjoin, List.getLast?_append_of_ne_nil _ (join_ne_nil hgs (List.cons_ne_nil g' gs))]
      exact ih hgs

theorem splitOn_join (hgs : ∀ g ∈ gs, colon ∉ g) (hne : gs ≠ []) :
    (IPv6.join gs).splitOn colon = gs := List.splitOn_intercalate colon hgs hne

/-- The groups of a text without `::`. -/
theorem pieces_join (hgs : ∀ g ∈ gs, IPv6.Piece g) (hne : gs ≠ []) :
    pieces (IPv6.join gs) = gs := by
  rw [pieces, if_neg (head?_join_ne hgs), if_neg (getLast?_join_ne hgs)]
  exact splitOn_join (fun g hg => (hgs g hg).colon) hne

theorem join_append (hl : ls ≠ []) (hr : rs ≠ []) :
    IPv6.join (ls ++ rs) = IPv6.join ls ++ [58] ++ IPv6.join rs := by
  cases ls with
  | nil => exact absurd rfl hl
  | cons l ls =>
    cases rs with
    | nil => exact absurd rfl hr
    | cons r rs =>
      rw [List.cons_append, join_cons, join_cons, join_cons, withColons_append]
      simp [withColons, colon]

/-- The groups of a text with `::`, with an empty one between them. -/
theorem pieces_short (hl : ∀ g ∈ ls, IPv6.Piece g) (hr : ∀ g ∈ rs, IPv6.Piece g)
    (hne : ls ≠ [] ∨ rs ≠ []) :
    pieces (IPv6.join ls ++ [58, 58] ++ IPv6.join rs) = ls ++ [] :: rs := by
  have hgs : ∀ g ∈ ls ++ [] :: rs, colon ∉ g := by
    intro g hg
    rcases List.mem_append.1 hg with h | h
    · exact (hl g h).colon
    · rcases List.mem_cons.1 h with rfl | h
      · exact List.not_mem_nil
      · exact (hr g h).colon
  have hsplit := splitOn_join hgs (List.append_ne_nil_of_right_ne_nil _ (List.cons_ne_nil _ _))
  have hempty : rs ≠ [] → IPv6.join ([] :: rs) = [58] ++ IPv6.join rs :=
    fun hrs => join_append (List.cons_ne_nil [] []) hrs
  by_cases hls : ls = []
  · subst hls
    have hrs := hne.resolve_left (not_not.2 rfl)
    have hlast : (IPv6.join [] ++ [58, 58] ++ IPv6.join rs).getLast? ≠ some colon := by
      rw [List.getLast?_append_of_ne_nil _ (join_ne_nil hr hrs)]
      exact getLast?_join_ne hr
    rw [List.nil_append, hempty hrs] at hsplit
    have hhead : (IPv6.join [] ++ [58, 58] ++ IPv6.join rs).head? = some colon := rfl
    rw [pieces, if_pos hhead, if_neg hlast]
    exact hsplit
  · have hhead : (IPv6.join ls ++ [58, 58] ++ IPv6.join rs).head? ≠ some colon := by
      rw [List.append_assoc, List.head?_append_of_ne_nil _ (join_ne_nil hl hls)]
      exact head?_join_ne hl
    rw [join_append hls (List.cons_ne_nil [] rs)] at hsplit
    rw [pieces, if_neg hhead]
    by_cases hrs : rs = []
    · have hlast : (IPv6.join ls ++ [58, 58] ++ IPv6.join rs).getLast? = some colon := by
        have hnil : IPv6.join [] = [] := rfl
        rw [hrs, hnil, List.append_nil, List.getLast?_append_of_ne_nil _ (List.cons_ne_nil 58 [58])]
        rfl
      have htext : (IPv6.join ls ++ [58, 58] ++ IPv6.join rs).dropLast =
          IPv6.join ls ++ [58] ++ IPv6.join ([] :: rs) := by
        rw [hrs]
        simp [IPv6.join]
      rw [if_pos hlast, htext]
      exact hsplit
    · have hlast : (IPv6.join ls ++ [58, 58] ++ IPv6.join rs).getLast? ≠ some colon := by
        rw [List.getLast?_append_of_ne_nil _ (join_ne_nil hr hrs)]
        exact getLast?_join_ne hr
      rw [hempty hrs] at hsplit
      rw [if_neg hlast]
      simpa using hsplit

theorem trailing_concat (hlen : gs.length < 8) :
    trailing (gs ++ [g]) = if 5 < g.length then some g else none := by
  have hcount : tokenCount (gs ++ [g]) - 1 = gs.length := by
    rw [tokenCount, List.length_append, List.length_singleton, if_pos (Nat.succ_le_of_lt hlen),
      Nat.add_sub_cancel]
  have hlast : lastToken (gs ++ [g]) = g := by
    rw [lastToken, hcount, List.drop_left, List.intercalate_singleton]
  rw [trailing, hlast]

/-- Of the groups all but an IPv4 address are decoded. -/
theorem shape (ht : IPv6.Tail tail vs) (hshort : ∀ g ∈ gs, g.length ≤ 4) (hne : gs ≠ [])
    (hlen : (gs ++ tail).length ≤ 8) :
    trailing (gs ++ tail) = tail.head? ∧ decoded (gs ++ tail) = gs ∧
      fieldCount (gs ++ tail) + vs.length = 8 := by
  have hcount : tokenCount (gs ++ tail) = (gs ++ tail).length := if_pos hlen
  cases ht with
  | none =>
    have htrailing : trailing (gs ++ []) = none := by
      obtain ⟨front, g, rfl⟩ := (List.eq_nil_or_concat gs).resolve_left hne
      rw [List.append_nil, List.length_concat] at hlen
      have hg := hshort g (by rw [List.concat_eq_append]; exact List.mem_concat_self)
      rw [List.append_nil, List.concat_eq_append, trailing_concat hlen, if_neg (by omega)]
    rw [decoded, fieldCount, htrailing, hcount]
    refine ⟨rfl, ?_, rfl⟩
    rw [Option.isSome_none, if_neg Bool.false_ne_true, List.take_length, List.append_nil]
  | @quad a b c d ha hb hc hd =>
    have htrailing : trailing (gs ++ [IPv6.quad a b c d]) = some (IPv6.quad a b c d) := by
      rw [trailing_concat, if_pos (IPv6.piece_quad ha hb hc hd).2]
      rw [List.length_append] at hlen
      exact hlen
    rw [decoded, fieldCount, htrailing, hcount]
    refine ⟨rfl, ?_, rfl⟩
    rw [Option.isSome_some, if_pos rfl, List.length_append, List.length_singleton,
      Nat.add_sub_cancel, List.take_left]

theorem fieldPieces_append : fieldPieces (ls ++ rs) = fieldPieces ls ++ fieldPieces rs :=
  List.filter_append ..

theorem fieldPieces_hextets (hgs : ∀ g ∈ gs, IPv6.Hextet g) : fieldPieces gs = gs :=
  List.filter_eq_self.2 fun g hg => decide_eq_true (hgs g hg).ne_nil

theorem lastEmpty_hextets {i n : Nat} (hgs : ∀ g ∈ gs, IPv6.Hextet g) : lastEmpty i n gs = n := by
  induction gs generalizing i with
  | nil => rfl
  | cons g gs ih =>
    rw [lastEmpty, if_neg (hgs g List.mem_cons_self).ne_nil,
      ih fun x hx => hgs x (List.mem_cons_of_mem g hx)]

theorem lastEmpty_append {i n : Nat} :
    lastEmpty i n (ls ++ rs) = lastEmpty (i + ls.length) (lastEmpty i n ls) rs := by
  induction ls generalizing i n with
  | nil => rfl
  | cons l ls ih =>
    rw [List.cons_append, lastEmpty, ih, lastEmpty, List.length_cons, Nat.add_right_comm,
      Nat.add_assoc]

theorem map_fieldValue (hgs : ∀ g ∈ gs, IPv6.Hextet g) :
    (gs.map fieldValue).map UInt16.toNat = gs.map IPv6.number := by
  rw [List.map_map]
  exact List.map_congr_left fun g hg => toNat_fieldValue (hgs g hg)

/-- What `normalize_IPv6` finds in a text of an address: no array is too small, and the fields are
the groups in front of the IPv4 address, if there is one. -/
structure Reads (s : List UInt8) (v : List Nat) (fields : List UInt16) (tail : List (List UInt8))
    (vs : List Nat) : Prop where
  ipv4 : IPv6.Tail tail vs
  length : fields.length + vs.length = 8
  value : v = fields.map UInt16.toNat ++ vs
  fits : Fits (pieces s)
  groups : groups (pieces s) = fields
  trailing : trailing (pieces s) = tail.head?

theorem reads_full (hgs : ∀ g ∈ gs, IPv6.Hextet g) (ht : IPv6.Tail tail vs)
    (hlen : gs.length + vs.length = 8) :
    Reads (IPv6.join (gs ++ tail)) (gs.map IPv6.number ++ vs) (gs.map fieldValue) tail vs := by
  have htail := ht.length_le
  have hne : gs ≠ [] := by
    rintro rfl
    rw [List.length_nil] at hlen
    omega
  have hpieces : pieces (IPv6.join (gs ++ tail)) = gs ++ tail :=
    pieces_join (IPv6.pieces_append hgs ht) (List.append_ne_nil_of_left_ne_nil hne _)
  obtain ⟨htrailing, hdecoded, hcount⟩ := shape ht (fun g hg => (hgs g hg).length_le) hne
    (by rw [List.length_append]; omega)
  have hfields : fieldPieces (decoded (gs ++ tail)) = gs := by
    rw [hdecoded, fieldPieces_hextets hgs]
  constructor
  · exact ht
  · rwa [List.length_map]
  · rw [map_fieldValue hgs]
  · rw [hpieces]
    constructor
    · rw [List.length_append]
      omega
    · rw [hfields]
      omega
    · rw [hfields]
      omega
  · rw [hpieces, groups, hfields, List.length_map, if_neg (by omega)]
    exact List.take_of_length_le (by rw [List.length_map]; omega)
  · rw [hpieces, htrailing]

theorem reads_short {k : Nat} (hl : ∀ g ∈ ls, IPv6.Hextet g) (hr : ∀ g ∈ rs, IPv6.Hextet g)
    (ht : IPv6.Tail tail vs) (hk : 0 < k) (hlen : ls.length + k + rs.length + vs.length = 8)
    (hne : ls ≠ [] ∨ rs ++ tail ≠ []) :
    Reads (IPv6.join ls ++ [58, 58] ++ IPv6.join (rs ++ tail))
      (ls.map IPv6.number ++ List.replicate k 0 ++ rs.map IPv6.number ++ vs)
      (ls.map fieldValue ++ List.replicate k 0 ++ rs.map fieldValue) tail vs := by
  have htail := ht.length_le
  have hpieces : pieces (IPv6.join ls ++ [58, 58] ++ IPv6.join (rs ++ tail)) =
      (ls ++ [] :: rs) ++ tail := by
    rw [pieces_short (fun g hg => (hl g hg).piece) (IPv6.pieces_append hr ht) hne,
      List.append_assoc, List.cons_append]
  have hshort : ∀ g ∈ ls ++ [] :: rs, g.length ≤ 4 := by
    intro g hg
    rcases List.mem_append.1 hg with h | h
    · exact (hl g h).length_le
    · rcases List.mem_cons.1 h with rfl | h
      · exact Nat.zero_le 4
      · exact (hr g h).length_le
  have hlength : (ls ++ [] :: rs).length = ls.length + rs.length + 1 := by
    rw [List.length_append, List.length_cons, Nat.add_assoc]
  obtain ⟨htrailing, hdecoded, hcount⟩ := shape ht hshort
    (List.append_ne_nil_of_right_ne_nil ls (List.cons_ne_nil [] rs))
    (by rw [List.length_append, hlength]; omega)
  have hfields : fieldPieces (decoded ((ls ++ [] :: rs) ++ tail)) = ls ++ rs := by
    have hcons : fieldPieces ([] :: rs) = fieldPieces rs := List.filter_cons_of_neg (by simp)
    rw [hdecoded, fieldPieces_append, hcons, fieldPieces_hextets hl, fieldPieces_hextets hr]
  have hempty : lastEmpty 0 8 (decoded ((ls ++ [] :: rs) ++ tail)) = ls.length := by
    rw [hdecoded, lastEmpty_append, lastEmpty, if_pos rfl, lastEmpty_hextets hr, Nat.zero_add]
  constructor
  · exact ht
  · simp only [List.length_append, List.length_map, List.length_replicate]
    exact hlen
  · rw [List.map_append, List.map_append, map_toNat_replicate, map_fieldValue hl, map_fieldValue hr]
  · rw [hpieces]
    constructor
    · rw [List.length_append, hlength]
      omega
    · rw [hfields, List.length_append]
      omega
    · rw [hfields, hempty, List.length_append]
      exact Or.inr (Nat.le_add_right _ _)
  · have hzeros : fieldCount ((ls ++ [] :: rs) ++ tail) - (ls.length + rs.length) = k := by omega
    have htake : ((ls ++ rs).map fieldValue).take ls.length = ls.map fieldValue := by
      rw [List.map_append, List.take_left' (List.length_map _)]
    have hdrop : ((ls ++ rs).map fieldValue).drop ls.length = rs.map fieldValue := by
      rw [List.map_append, List.drop_left' (List.length_map _)]
    rw [hpieces, groups, hfields, hempty, htake, hdrop, List.length_map, List.length_append, hzeros,
      if_pos (by omega)]
  · rw [hpieces, htrailing]

theorem mem_join (hg : g ∈ gs) (hc : c ∈ g) : c ∈ IPv6.join gs := by
  cases gs with
  | nil => exact absurd hg List.not_mem_nil
  | cons g' gs =>
    rw [join_cons, List.mem_append]
    cases List.mem_cons.1 hg with
    | inl heq => exact Or.inl (heq ▸ hc)
    | inr hmem => exact Or.inr (List.mem_flatMap.2 ⟨g, hmem, List.mem_cons_of_mem colon hc⟩)

theorem dot_not_mem_join (hgs : ∀ g ∈ gs, IPv6.Hextet g) : dot ∉ IPv6.join gs := by
  intro h
  obtain h | ⟨g, hg, hc⟩ := IPv6.mem_intercalate h
  · exact absurd h (by decide)
  · exact absurd ((hgs g hg).hex dot hc) (by decide)

theorem dot_mem_quad (a b c d : Nat) : dot ∈ IPv6.quad a b c d := by
  rw [IPv6.quad, List.map_cons, List.map_cons, List.intercalate_cons_cons]
  exact List.mem_append_left _ (List.mem_append_right _ (List.mem_singleton.2 rfl))

/-- Only the texts with an IPv4 address have a dot in them. -/
theorem dot_not_mem_iff {front : List UInt8} (hfront : dot ∉ front)
    (hgs : ∀ g ∈ gs, IPv6.Hextet g) (ht : IPv6.Tail tail vs) :
    dot ∉ front ++ IPv6.join (gs ++ tail) ↔ tail = [] := by
  cases ht with
  | none =>
    rw [List.append_nil, List.mem_append, not_or]
    exact iff_of_true ⟨hfront, dot_not_mem_join hgs⟩ rfl
  | quad =>
    refine iff_of_false (fun h => h (List.mem_append_right _ ?_)) (List.cons_ne_nil _ _)
    exact mem_join (List.mem_append_right gs (List.mem_singleton.2 rfl)) (dot_mem_quad ..)

/-- `normalize_IPv6` reads every text of an address. -/
theorem reads_of_denotes {v : List Nat} (h : IPv6.Denotes s v) (hne : s ≠ [colon, colon]) :
    ∃ fields tail vs, Reads s v fields tail vs ∧ (dot ∉ s ↔ tail = []) := by
  cases h with
  | @full gs tail vs hgs ht hlen =>
    have hdot : dot ∉ [] ++ IPv6.join (gs ++ tail) ↔ tail = [] :=
      dot_not_mem_iff List.not_mem_nil hgs ht
    exact ⟨_, _, _, reads_full hgs ht hlen, hdot⟩
  | @short ls rs tail vs k hl hr ht hk hlen =>
    have hfront : dot ∉ IPv6.join ls ++ [58, 58] := by
      rw [List.mem_append, not_or]
      exact ⟨dot_not_mem_join hl, by decide⟩
    refine ⟨_, _, _, reads_short hl hr ht hk hlen ?_, dot_not_mem_iff hfront hr ht⟩
    apply Classical.byContradiction
    intro h
    rw [not_or, not_not, not_not] at h
    rw [h.1, h.2] at hne
    exact hne rfl

end Pieces

/-! ## Whether an address is kept -/

/-- `normalize_IPv6` is right about a text: it does nothing undefined, and what it makes of an address
denotes the same one. -/
structure Ipv6Right (s : List UInt8) : Prop where
  defined : ∀ fault, normalizeIPv6 s ≠ .error (.undefined fault)
  denotes : ∀ v, IPv6.Denotes s v → ∃ out, normalizeIPv6 s = .ok out ∧ IPv6.Denotes out v

/-- The eight groups are zero, and some of them are written. -/
structure WritesZeros (s : List UInt8) : Prop where
  ne : s ≠ [colon, colon]
  dot : dot ∉ s
  zeros : IPv6.Denotes s (List.replicate 8 0)

theorem eq_replicate_zero (h : fields.map UInt16.toNat = List.replicate 8 0) :
    fields = List.replicate 8 0 := by
  rw [List.eq_replicate_iff] at h ⊢
  rw [List.length_map] at h
  refine ⟨h.1, fun f hf => UInt16.toNat_inj.1 ?_⟩
  exact h.2 _ (List.mem_map_of_mem hf)

theorem normalizeIPv6_zeros (hs : isIpv6 s) (h : WritesZeros s) : normalizeIPv6 s = .ok [colon] := by
  obtain ⟨fields, tail, vs, hreads, hdot⟩ := reads_of_denotes h.zeros h.ne
  obtain rfl := hdot.1 h.dot
  have hvs : vs = [] := by
    cases hreads.ipv4
    rfl
  have hvalue := hreads.value
  rw [hvs, List.append_nil] at hvalue
  rw [normalizeIPv6_eq_ok hs h.ne hreads.fits, hreads.groups, hreads.trailing,
    eq_replicate_zero hvalue.symm]
  rfl

/-- What `normalize_IPv6` returns for an address denotes it, unless it writes zeros. -/
theorem normalizeIPv6_denotes {v : List Nat} (hs : isIpv6 s) (h : IPv6.Denotes s v)
    (hzeros : ¬ WritesZeros s) : ∃ out, normalizeIPv6 s = .ok out ∧ IPv6.Denotes out v := by
  by_cases hne : s = [colon, colon]
  · refine ⟨s, ?_, h⟩
    rw [normalizeIPv6, hs, if_neg (by decide), if_pos hne]
  · obtain ⟨fields, tail, vs, hreads, hdot⟩ := reads_of_denotes h hne
    have hdenotes : ¬ (tail = [] ∧ fields = List.replicate 8 0) := by
      rintro ⟨rfl, rfl⟩
      have hvs : vs = [] := by
        cases hreads.ipv4
        rfl
      have hvalue := hreads.value
      rw [hvs, List.append_nil, map_toNat_replicate] at hvalue
      exact hzeros ⟨hne, hdot.2 rfl, hvalue ▸ h⟩
    refine ⟨_, normalizeIPv6_eq_ok hs hne hreads.fits, ?_⟩
    rw [hreads.groups, hreads.trailing, hreads.value]
    exact denotes_encodeFields hreads.ipv4 hreads.length hdenotes

/-- **When `normalize_IPv6` is right.** For every text that a url may have as an IPv6 literal: the
pieces of the text have to fit into the arrays, and an address of zeros must not be written out. -/
theorem ipv6Right_iff (hs : isIpv6 s) :
    Ipv6Right s ↔ (s = [colon, colon] ∨ Fits (pieces s)) ∧ ¬ WritesZeros s := by
  constructor
  · intro h
    refine ⟨?_, fun hzeros => ?_⟩
    · by_cases hne : s = [colon, colon]
      · exact Or.inl hne
      · refine Or.inr (Classical.byContradiction fun hfits => ?_)
        obtain ⟨fault, hfault⟩ := normalizeIPv6_undefined hs hne hfits
        exact h.defined fault hfault
    · obtain ⟨out, hout, hdenotes⟩ := h.denotes _ hzeros.zeros
      rw [normalizeIPv6_zeros hs hzeros] at hout
      cases hout
      exact absurd hdenotes.text.1 (by decide)
  · rintro ⟨hfits, hzeros⟩
    refine ⟨fun fault hfault => ?_, fun v hv => normalizeIPv6_denotes hs hv hzeros⟩
    by_cases hne : s = [colon, colon]
    · rw [normalizeIPv6, hs, if_neg (by decide), if_pos hne] at hfault
      cases hfault
    · rw [normalizeIPv6_eq_ok hs hne (hfits.resolve_left hne)] at hfault
      cases hfault

/-- `::1` -/
theorem ipv6Right_iff_loopback : Ipv6Right [colon, colon, 49] ↔
    ([colon, colon, 49] = [colon, colon] ∨ Fits (pieces [colon, colon, 49])) ∧
      ¬ WritesZeros [colon, colon, 49] :=
  ipv6Right_iff (by decide)

/-- For `1:2`, which has no empty piece, the index of a field goes below zero; and `::0` becomes
`:`. -/
theorem ipv6_wrong :
    (isIpv6 [49, colon, 50] ∧ normalizeIPv6 [49, colon, 50] = .error (.undefined .below) ∧
      ¬ Ipv6Right [49, colon, 50]) ∧
    isIpv6 [colon, colon, 48] ∧ IPv6.Denotes [colon, colon, 48] (List.replicate 8 0) ∧
      normalizeIPv6 [colon, colon, 48] = .ok [colon] ∧ ¬ Ipv6Right [colon, colon, 48] := by
  have hbelow : normalizeIPv6 [49, colon, 50] = .error (.undefined .below) := by decide
  have hzeros : IPv6.Denotes [colon, colon, 48] (List.replicate 8 0) := by
    have hgroup : ∀ g ∈ [[(48 : UInt8)]], IPv6.Hextet g := by
      intro g hg
      rw [List.mem_singleton.1 hg]
      refine ⟨by decide, by decide, fun c hc => ?_⟩
      rw [List.mem_singleton.1 hc]
      rfl
    exact @IPv6.Denotes.short [] [[48]] [] [] 7 (fun g hg => absurd hg List.not_mem_nil) hgroup .none
      (by decide) (by decide)
  refine ⟨⟨by decide, hbelow, fun h => h.defined _ hbelow⟩, by decide, hzeros, by decide, ?_⟩
  intro h
  obtain ⟨out, hout, hdenotes⟩ := h.denotes _ hzeros
  have hcolon : normalizeIPv6 [colon, colon, 48] = .ok [colon] := by decide
  rw [hcolon] at hout
  cases hout
  exact absurd hdenotes.text.1 (by decide)

end SNet.Http.Url
