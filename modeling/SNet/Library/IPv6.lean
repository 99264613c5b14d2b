import SNet.Library.Text

/-!
# Texts of IPv6 addresses

An address is a list of eight 16-bit groups. A text denotes it when it lists the groups between
colons, each in up to four hexadecimal digits, where `::` may stand for one or more groups of zeros
and the last two may be written as an IPv4 address. What is written for the groups one by one denotes
them (`denotes_groups`), and so does what is written with a run of zeros left out (`denotes_run`).
-/

namespace IPv6

def isHex (c : UInt8) : Bool := 48 ≤ c && c ≤ 57 || 65 ≤ c && c ≤ 70 || 97 ≤ c && c ≤ 102

def hexValue (c : UInt8) : Nat :=
  if c ≤ 57 then c.toNat - 48 else if c ≤ 70 then c.toNat - 55 else c.toNat - 87

/-- The number that hexadecimal digits write. -/
def number (t : List UInt8) : Nat := t.foldl (fun n c => 16 * n + hexValue c) 0

/-- A group as it is written. -/
structure Hextet (t : List UInt8) : Prop where
  ne_nil : t ≠ []
  length_le : t.length ≤ 4
  hex : ∀ c ∈ t, isHex c

/-- The groups of a text with a colon between each two. -/
def join (gs : List (List UInt8)) : List UInt8 := [58].intercalate gs

def quad (a b c d : Nat) : List UInt8 :=
  [46].intercalate ([a, b, c, d].map fun n => ascii (toString n))

/-- What may stand for the last two groups, if anything does. -/
inductive Tail : List (List UInt8) → List Nat → Prop
  | none : Tail [] []
  | quad {a b c d : Nat} : a ≤ 255 → b ≤ 255 → c ≤ 255 → d ≤ 255 →
    Tail [quad a b c d] [256 * a + b, 256 * c + d]

/-- A text of an address, and its eight groups. -/
inductive Denotes : List UInt8 → List Nat → Prop
  | full {gs tail : List (List UInt8)} {vs : List Nat} : (∀ g ∈ gs, Hextet g) → Tail tail vs →
    gs.length + vs.length = 8 → Denotes (join (gs ++ tail)) (gs.map number ++ vs)
  | short {ls rs tail : List (List UInt8)} {vs : List Nat} {k : Nat} : (∀ g ∈ ls, Hextet g) →
    (∀ g ∈ rs, Hextet g) → Tail tail vs → 0 < k → ls.length + k + rs.length + vs.length = 8 →
    Denotes (join ls ++ [58, 58] ++ join (rs ++ tail))
      (ls.map number ++ List.replicate k 0 ++ rs.map number ++ vs)

variable {n : Nat} {t : List UInt8} {gs tail : List (List UInt8)} {vs : List Nat} {c : UInt8}

/-! ## Groups that are written -/

def writeHex (n : Nat) : List UInt8 := (Nat.toDigits 16 n).map fun c => UInt8.ofNat c.toNat

theorem writeHex_of_lt (h : n < 16) : writeHex n = [UInt8.ofNat (Nat.digitChar n).toNat] := by
  rw [writeHex, Nat.toDigits_of_lt_base h, List.map_singleton]

theorem writeHex_of_le (h : 16 ≤ n) :
    writeHex n = writeHex (n / 16) ++ [UInt8.ofNat (Nat.digitChar (n % 16)).toNat] := by
  rw [writeHex, Nat.toDigits_of_base_le (by decide) h, List.map_append, List.map_singleton, writeHex]

theorem digit : ∀ n < 16, isHex (UInt8.ofNat (Nat.digitChar n).toNat) = true ∧
    hexValue (UInt8.ofNat (Nat.digitChar n).toNat) = n := by decide

theorem isHex_writeHex : ∀ c ∈ writeHex n, isHex c := by
  induction n using Nat.strong_induction_on with
  | _ n ih =>
    cases Nat.lt_or_ge n 16 with
    | inl hlt =>
      rw [writeHex_of_lt hlt]
      intro c hc
      rw [List.mem_singleton.1 hc]
      exact (digit n hlt).1
    | inr hge =>
      rw [writeHex_of_le hge]
      intro c hc
      cases List.mem_append.1 hc with
      | inl hc => exact ih _ (Nat.div_lt_self (by omega) (by decide)) c hc
      | inr hc =>
        rw [List.mem_singleton.1 hc]
        exact (digit _ (Nat.mod_lt n (by decide))).1

theorem number_append_singleton : number (t ++ [c]) = 16 * number t + hexValue c := by
  rw [number, List.foldl_append]
  rfl

@[simp] theorem number_writeHex : number (writeHex n) = n := by
  induction n using Nat.strong_induction_on with
  | _ n ih =>
    cases Nat.lt_or_ge n 16 with
    | inl hlt =>
      rw [writeHex_of_lt hlt, number, List.foldl_cons, List.foldl_nil, (digit n hlt).2,
        Nat.mul_zero, Nat.zero_add]
    | inr hge =>
      rw [writeHex_of_le hge, number_append_singleton, (digit _ (Nat.mod_lt n (by decide))).2,
        ih _ (Nat.div_lt_self (by omega) (by decide)), Nat.div_add_mod]

theorem hextet_writeHex (h : n < 2 ^ 16) : Hextet (writeHex n) where
  ne_nil := by
    rw [writeHex, ne_eq, List.map_eq_nil_iff]
    exact Nat.toDigits_ne_nil
  length_le := by
    rw [writeHex, List.length_map]
    exact (Nat.length_toDigits_le_iff (by decide) (by decide)).2 h
  hex := isHex_writeHex

theorem map_number_writeHex (fs : List Nat) : (fs.map writeHex).map number = fs := by
  simp [List.map_map, Function.comp_def]

theorem hextet_of_mem_map {fs : List Nat} (hfs : ∀ f ∈ fs, f < 2 ^ 16) :
    ∀ g ∈ fs.map writeHex, Hextet g := by
  intro g hg
  obtain ⟨f, hf, rfl⟩ := List.mem_map.1 hg
  exact hextet_writeHex (hfs f hf)

/-- The groups one by one. -/
theorem denotes_groups {fs : List Nat} (hfs : ∀ f ∈ fs, f < 2 ^ 16) (ht : Tail tail vs)
    (hlen : fs.length + vs.length = 8) : Denotes (join (fs.map writeHex ++ tail)) (fs ++ vs) := by
  have h := Denotes.full (hextet_of_mem_map hfs) ht (by rwa [List.length_map])
  rwa [map_number_writeHex] at h

/-- The groups without a run of zeros. -/
theorem denotes_run {left right : List Nat} {k : Nat} (hl : ∀ f ∈ left, f < 2 ^ 16)
    (hr : ∀ f ∈ right, f < 2 ^ 16) (ht : Tail tail vs) (hk : 0 < k)
    (hlen : left.length + k + right.length + vs.length = 8) :
    Denotes (join (left.map writeHex) ++ [58, 58] ++ join (right.map writeHex ++ tail))
      (left ++ List.replicate k 0 ++ right ++ vs) := by
  have h := Denotes.short (hextet_of_mem_map hl) (hextet_of_mem_map hr) ht hk
    (by rwa [List.length_map, List.length_map])
  rwa [map_number_writeHex, map_number_writeHex] at h

/-! ## What stands in a text -/

/-- The characters of an address. -/
def isPart (c : UInt8) : Bool := c == 58 || c == 46 || isHex c

theorem isPart_of_isHex (h : isHex c) : isPart c = true := by
  rw [isPart, h, Bool.or_true]

theorem isHex_of_isDigit (h : Text.isDigit c) : isHex c = true := by
  have hc : (48 ≤ c && c ≤ 57) = true := h
  rw [isHex, hc, Bool.true_or, Bool.true_or]

theorem mem_intercalate {s : UInt8} (h : c ∈ [s].intercalate gs) : c = s ∨ ∃ g ∈ gs, c ∈ g := by
  induction gs with
  | nil => exact absurd h List.not_mem_nil
  | cons g gs ih =>
    cases gs with
    | nil =>
      rw [List.intercalate_singleton] at h
      exact Or.inr ⟨g, List.mem_cons_self, h⟩
    | cons g' gs =>
      rw [List.intercalate_cons_cons, List.mem_append, List.mem_append, List.mem_singleton] at h
      rcases h with (h | h) | h
      · exact Or.inr ⟨g, List.mem_cons_self, h⟩
      · exact Or.inl h
      · obtain hs | ⟨x, hx, hc⟩ := ih h
        · exact Or.inl hs
        · exact Or.inr ⟨x, List.mem_cons_of_mem g hx, hc⟩

theorem length_intercalate_le {s : UInt8} {k : Nat} (h : ∀ g ∈ gs, g.length ≤ k) :
    ([s].intercalate gs).length ≤ gs.length * (k + 1) := by
  induction gs with
  | nil => exact Nat.zero_le _
  | cons g gs ih =>
    have hg := h g List.mem_cons_self
    have ih := ih fun x hx => h x (List.mem_cons_of_mem g hx)
    rw [List.length_cons, Nat.succ_mul]
    cases gs with
    | nil =>
      rw [List.intercalate_singleton]
      omega
    | cons g' gs =>
      rw [List.intercalate_cons_cons, List.length_append, List.length_append, List.length_singleton]
      omega

theorem isPart_join (h : ∀ g ∈ gs, ∀ c ∈ g, isPart c) : ∀ c ∈ join gs, isPart c := by
  intro c hc
  obtain rfl | ⟨g, hg, hc⟩ := mem_intercalate hc
  · rfl
  · exact h g hg c hc

/-- A piece of a text between its colons. -/
structure Piece (g : List UInt8) : Prop where
  ne_nil : g ≠ []
  colon : 58 ∉ g
  length_le : g.length ≤ 16
  part : ∀ c ∈ g, isPart c

theorem Hextet.piece {g : List UInt8} (h : Hextet g) : Piece g where
  ne_nil := h.ne_nil
  colon := fun hmem => Bool.false_ne_true (h.hex 58 hmem)
  length_le := Nat.le_trans h.length_le (by decide)
  part := fun c hc => isPart_of_isHex (h.hex c hc)

theorem length_toString_le (h : n ≤ 255) : (ascii (toString n)).length ≤ 3 := by
  rw [Text.ascii_toString, List.length_map]
  exact (Nat.length_toDigits_le_iff (by decide) (by decide)).2 (by omega)

section Quad

variable {a b d : Nat} {m : Nat}

theorem piece_quad (ha : a ≤ 255) (hb : b ≤ 255) (hm : m ≤ 255) (hd : d ≤ 255) :
    Piece (quad a b m d) ∧ 5 < (quad a b m d).length := by
  have hmem : ∀ g ∈ [a, b, m, d].map fun n => ascii (toString n), ∃ n ≤ 255,
      g = ascii (toString n) := by
    intro g hg
    obtain ⟨n, hn, rfl⟩ := List.mem_map.1 hg
    refine ⟨n, ?_, rfl⟩
    simp only [List.mem_cons, List.not_mem_nil, or_false] at hn
    omega
  have hchars : ∀ c ∈ quad a b m d, c = 46 ∨ Text.isDigit c := by
    intro c hc
    obtain rfl | ⟨g, hg, hc⟩ := mem_intercalate hc
    · exact Or.inl rfl
    · obtain ⟨n, -, rfl⟩ := hmem g hg
      exact Or.inr (Text.isDigit_toString n c hc)
  have hlong : 5 < (quad a b m d).length := by
    have hpos : ∀ n : Nat, 0 < (ascii (toString n)).length :=
      fun n => List.length_pos_iff.2 (Text.toString_ne_nil n)
    have h1 := hpos a
    have h2 := hpos b
    have h3 := hpos m
    have h4 := hpos d
    simp only [quad, List.map_cons, List.map_nil, List.intercalate_cons_cons,
      List.intercalate_singleton, List.length_append, List.length_singleton]
    omega
  refine ⟨⟨?_, ?_, ?_, ?_⟩, hlong⟩
  · intro hnil
    rw [hnil] at hlong
    exact absurd hlong (Nat.not_lt_zero 5)
  · intro hmem
    obtain h | h := hchars 58 hmem
    · exact absurd h (by decide)
    · exact Bool.false_ne_true h
  · refine length_intercalate_le (k := 3) fun g hg => ?_
    obtain ⟨n, hn, rfl⟩ := hmem g hg
    exact length_toString_le hn
  · intro c hc
    obtain rfl | h := hchars c hc
    · rfl
    · exact isPart_of_isHex (isHex_of_isDigit h)

end Quad

theorem Tail.piece (h : Tail tail vs) : ∀ g ∈ tail, Piece g := by
  cases h with
  | none => exact fun g hg => absurd hg List.not_mem_nil
  | quad ha hb hc hd =>
    intro g hg
    rw [List.mem_singleton.1 hg]
    exact (piece_quad ha hb hc hd).1

theorem Tail.length_le (h : Tail tail vs) : tail.length ≤ 1 ∧ tail.length ≤ vs.length ∧
    vs.length ≤ 2 := by
  cases h with
  | none => exact ⟨Nat.zero_le _, Nat.zero_le _, Nat.zero_le _⟩
  | quad => exact ⟨Nat.le_refl _, Nat.le_succ 1, Nat.le_refl _⟩

theorem pieces_append (hgs : ∀ g ∈ gs, Hextet g) (ht : Tail tail vs) :
    ∀ g ∈ gs ++ tail, Piece g := by
  intro g hg
  cases List.mem_append.1 hg with
  | inl hg => exact (hgs g hg).piece
  | inr hg => exact ht.piece g hg

theorem length_join_le (h : ∀ g ∈ gs, Piece g) : (join gs).length ≤ gs.length * 17 :=
  length_intercalate_le fun g hg => (h g hg).length_le

/-- A text of an address is a short text of the characters of an address. -/
theorem Denotes.text (h : Denotes t vs) :
    2 ≤ t.length ∧ t.length ≤ 254 ∧ ∀ c ∈ t, isPart c := by
  cases h with
  | @full gs tail ws hgs ht hlen =>
    have hpieces := pieces_append hgs ht
    have hle := length_join_le hpieces
    obtain ⟨hone, -, htwo⟩ := ht.length_le
    rw [List.length_append] at hle
    refine ⟨?_, by omega, isPart_join fun g hg => (hpieces g hg).part⟩
    rcases gs with _ | ⟨g, _ | ⟨g', gs⟩⟩
    · rw [List.length_nil] at hlen
      omega
    · rw [List.length_singleton] at hlen
      omega
    · have hpos := List.length_pos_iff.2 (hgs g List.mem_cons_self).ne_nil
      rw [join, List.cons_append, List.cons_append, List.intercalate_cons_cons, List.length_append,
        List.length_append, List.length_singleton]
      omega
  | @short ls rs tail ws k hls hrs ht hk hlen =>
    have hpieces := pieces_append hrs ht
    have hle := length_join_le hpieces
    have hle' := length_join_le fun g hg => (hls g hg).piece
    obtain ⟨hone, -, -⟩ := ht.length_le
    rw [List.length_append] at hle
    have hlength : (join ls ++ [58, 58] ++ join (rs ++ tail)).length =
        (join ls).length + 2 + (join (rs ++ tail)).length := by
      rw [List.length_append, List.length_append]
      rfl
    refine ⟨by omega, by omega, ?_⟩
    intro c hc
    rw [List.mem_append, List.mem_append] at hc
    rcases hc with (hc | hc) | hc
    · exact isPart_join (fun g hg => (hls g hg).piece.part) c hc
    · obtain rfl | rfl : c = 58 ∨ c = 58 := by simpa using hc
      all_goals rfl
    · exact isPart_join (fun g hg => (hpieces g hg).part) c hc

end IPv6
