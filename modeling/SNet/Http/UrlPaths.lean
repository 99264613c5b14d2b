import SNet.Http.Url
import SNet.Library.Lines

/-!
# Normal paths

`normalize_path` leaves elements that are neither empty nor `.` nor `..`, but that the last one may
be empty. A path of such elements is normal, and normalizing does not change it.
-/

namespace SNet.Http.Url

variable {s path elem : List UInt8} {elems front last : List (List UInt8)}

/-- An element that is kept where it is. -/
structure Segment (elem : List UInt8) : Prop where
  ne_nil : elem ≠ []
  ne_dot : elem ≠ [dot]
  ne_dots : elem ≠ [dot, dot]
  slash : slash ∉ elem

/-- The elements of a normal path. -/
inductive NormalElems : List (List UInt8) → Prop
  | mk {front last : List (List UInt8)} : (∀ elem ∈ front, Segment elem) → last = [] ∨ last = [[]] →
    NormalElems (front ++ last)

/-- A path that begins with a slash or not, and its elements. -/
inductive NormalPath : List UInt8 → Prop
  | absolute {elems : List (List UInt8)} : NormalElems elems →
    NormalPath (slash :: [slash].intercalate elems)
  | relative {elems : List (List UInt8)} : NormalElems elems →
    NormalPath ([slash].intercalate elems)

theorem pathStep_segment (h : Segment elem) : pathStep elems elem = elems ++ [elem] := by
  rw [pathStep, if_neg (not_or.2 ⟨h.ne_nil, h.ne_dot⟩), if_neg h.ne_dots]

theorem foldl_pathStep (h : ∀ elem ∈ front, Segment elem) :
    front.foldl pathStep elems = elems ++ front := by
  induction front generalizing elems with
  | nil => exact (List.append_nil elems).symm
  | cons elem front ih =>
    rw [List.foldl_cons, pathStep_segment (h elem List.mem_cons_self),
      ih fun e he => h e (List.mem_cons_of_mem elem he), List.append_assoc, List.singleton_append]

/-- What the loop keeps are segments. -/
theorem segment_pathStep (h : ∀ elem ∈ elems, Segment elem) (hslash : slash ∉ elem) :
    ∀ e ∈ pathStep elems elem, Segment e := by
  intro e he
  rw [pathStep] at he
  split at he
  · exact h e he
  · next hskip =>
    rw [not_or] at hskip
    split at he
    · exact h e (List.dropLast_subset _ he)
    · next hup =>
      rcases List.mem_append.1 he with he | he
      · exact h e he
      · rw [List.mem_singleton.1 he]
        exact ⟨hskip.1, hskip.2, hup, hslash⟩

theorem segment_foldl (h : ∀ elem ∈ elems, Segment elem) {es : List (List UInt8)}
    (hslash : ∀ e ∈ es, slash ∉ e) : ∀ e ∈ es.foldl pathStep elems, Segment e := by
  induction es generalizing elems with
  | nil => exact h
  | cons e es ih =>
    exact ih (segment_pathStep h (hslash e List.mem_cons_self))
      fun x hx => hslash x (List.mem_cons_of_mem e hx)

/-- The elements of any path are normal. -/
theorem normalElems_pathElems : NormalElems (pathElems s) := by
  have hsplit : ∀ e ∈ s.splitOn slash, slash ∉ e := fun e he => Lines.not_mem_of_mem_splitOn he
  have hfront : ∀ e ∈ (s.splitOn slash).dropLast.foldl pathStep [], Segment e :=
    segment_foldl (fun e he => absurd he List.not_mem_nil)
      fun e he => hsplit e (List.dropLast_subset _ he)
  have hlast : slash ∉ (s.splitOn slash).getLastD [] := by
    rw [List.getLastD_eq_getLast?, List.getLast?_eq_some_getLast (List.splitOn_ne_nil slash s)]
    exact hsplit _ (List.getLast_mem _)
  rw [pathElems]
  split
  · exact .mk hfront (Or.inr rfl)
  · next hdot =>
    split
    · rw [← List.append_nil (List.dropLast _)]
      exact .mk (fun e he => hfront e (List.dropLast_subset _ he)) (Or.inl rfl)
    · next hdots =>
      by_cases hnil : (s.splitOn slash).getLastD [] = []
      · rw [hnil]
        exact .mk hfront (Or.inr rfl)
      · rw [← List.append_nil (_ ++ [_])]
        refine .mk (fun e he => ?_) (Or.inl rfl)
        rcases List.mem_append.1 he with he | he
        · exact hfront e he
        · rw [List.mem_singleton.1 he]
          exact ⟨hnil, hdot, hdots, hlast⟩

/-- The elements of a path that normal ones are written in. -/
theorem pathElems_intercalate (h : NormalElems elems) (hne : elems ≠ []) :
    pathElems ([slash].intercalate elems) = elems := by
  obtain ⟨hfront, hlast⟩ := h
  rename_i front last
  have hsplit : ([slash].intercalate (front ++ last)).splitOn slash = front ++ last := by
    apply List.splitOn_intercalate slash _ hne
    intro e he
    rcases List.mem_append.1 he with he | he
    · exact (hfront e he).slash
    · obtain rfl | rfl := hlast
      · cases he
      · rw [List.mem_singleton.1 he]
        exact List.not_mem_nil
  rw [pathElems, hsplit]
  obtain rfl | rfl := hlast
  · rw [List.append_nil] at hne ⊢
    have hseg := hfront _ (List.getLast_mem hne)
    have hget : front.getLastD [] = front.getLast hne := by
      rw [List.getLastD_eq_getLast?, List.getLast?_eq_some_getLast hne, Option.getD_some]
    rw [hget, if_neg hseg.ne_dot, if_neg hseg.ne_dots,
      foldl_pathStep fun e he => hfront e (List.dropLast_subset _ he), List.nil_append,
      List.dropLast_append_getLast]
  · rw [List.dropLast_concat, List.getLastD_concat, if_neg (by decide), if_neg (by decide),
      foldl_pathStep hfront, List.nil_append]

/-- A slash in front changes nothing. -/
theorem pathElems_slash : pathElems (slash :: s) = pathElems s := by
  have hsplit : (slash :: s).splitOn slash = [] :: s.splitOn slash := by
    rw [List.splitOn_cons_eq_if_modifyHead, if_pos (beq_self_eq_true slash)]
  have hne := List.splitOn_ne_nil slash s
  have hlast : ([] :: s.splitOn slash).getLastD [] = (s.splitOn slash).getLastD [] := by
    rw [List.getLastD_cons]
  rw [pathElems, hsplit, hlast, List.dropLast_cons_of_ne_nil hne]
  rfl

/-- Normal elements are written without a slash in front. -/
theorem head?_intercalate_ne (h : NormalElems elems) :
    ([slash].intercalate elems).head? ≠ some slash := by
  obtain ⟨hfront, hlast⟩ := h
  rename_i front last
  cases front with
  | nil => obtain rfl | rfl := hlast <;> decide
  | cons elem front =>
    have hseg := hfront elem List.mem_cons_self
    have hhead : ([slash].intercalate (elem :: front ++ last)).head? = elem.head? := by
      cases hrest : front ++ last with
      | nil => rw [List.cons_append, hrest, List.intercalate_singleton]
      | cons e es =>
        rw [List.cons_append, hrest, List.intercalate_cons_cons, List.append_assoc,
          List.head?_append_of_ne_nil _ hseg.ne_nil]
    rw [hhead]
    exact fun hs => hseg.slash (List.mem_of_head? hs)

theorem normalPath_normalizePath : NormalPath (normalizePath s) := by
  rw [normalizePath]
  split
  · next hnil =>
    rw [hnil]
    exact .relative (@NormalElems.mk [] [] (fun _ he => absurd he List.not_mem_nil) (Or.inl rfl))
  · split
    · exact .absolute normalElems_pathElems
    · exact .relative normalElems_pathElems

theorem NormalPath.eq (h : NormalPath path) : normalizePath path = path := by
  cases h with
  | @absolute elems h =>
    have helems : [slash].intercalate (pathElems (slash :: [slash].intercalate elems)) =
        [slash].intercalate elems := by
      rw [pathElems_slash]
      by_cases hne : elems = []
      · rw [hne]
        rfl
      · rw [pathElems_intercalate h hne]
    rw [normalizePath, if_neg (List.cons_ne_nil _ _), List.head?_cons, if_pos rfl, helems]
    rfl
  | @relative elems h =>
    rw [normalizePath]
    split
    · rfl
    · next hne =>
      have helems : elems ≠ [] := by
        rintro rfl
        exact hne rfl
      rw [if_neg (head?_intercalate_ne h), pathElems_intercalate h helems]
      rfl

theorem normalizePath_idem : normalizePath (normalizePath s) = normalizePath s :=
  normalPath_normalizePath.eq

/-- A normal path does not begin with what an authority begins with. -/
theorem take_two_ne (h : normalizePath path = path) : path.take 2 ≠ [slash, slash] := by
  have hhead : ∀ {s : List UInt8}, s.take 2 = [slash, slash] →
      s.head? = some slash ∧ s.tail.head? = some slash := by
    intro s hs
    match s, hs with
    | c :: d :: s, hs =>
      rw [List.take_succ_cons, List.take_succ_cons, List.cons.injEq, List.cons.injEq] at hs
      exact ⟨congrArg some hs.1, congrArg some hs.2.1⟩
  have hnormal := normalPath_normalizePath (s := path)
  rw [h] at hnormal
  cases hnormal with
  | absolute helems => exact fun htake => head?_intercalate_ne helems (hhead htake).2
  | relative helems => exact fun htake => head?_intercalate_ne helems (hhead htake).1

end SNet.Http.Url
