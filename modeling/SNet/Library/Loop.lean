import Mathlib.Tactic.Common

/-!
# Loops that may not end

A `Loop` is one round of a loop or of a tail recursion: it goes on from another state, or ends with
a result. `Ends` says that the loop ends with a result after finitely many rounds, `Reached` that it
comes to a state. A loop ends if a measure falls from each reached round to the next
(`ends_of_measure`), or with it a variant that an invariant carries (`ends_of_variant`). It never ends
if it goes on wherever an invariant holds (`not_ends_of_invariant`), as at a round that leads to
itself (`Reached.not_ends_of_cycle`).
-/

/-- One round: the state of the next round, or the result. -/
def Loop (σ ρ : Type*) := σ → σ ⊕ ρ

namespace Loop

variable {σ ρ : Type*} {L : Loop σ ρ} {s t u : σ} {r : ρ}

/-- The result, if it is there within `fuel` rounds. -/
def run (L : Loop σ ρ) : (fuel : Nat) → σ → Option ρ
  | 0, _ => none
  | fuel + 1, s =>
    match L s with
    | .inl t => run L fuel t
    | .inr r => some r

/-- The loop ends with `r`. -/
def Ends (L : Loop σ ρ) (s : σ) (r : ρ) : Prop := ∃ fuel, L.run fuel s = some r

/-- A round of the loop that begins at `s` finds the state `t`. -/
inductive Reached (L : Loop σ ρ) (s : σ) : σ → Prop
  | refl : Reached L s s
  | next {t u : σ} : Reached L s t → L t = .inl u → Reached L s u

theorem ends_of_inl (h : L s = .inl t) : L.Ends s r ↔ L.Ends t r := by
  constructor
  · rintro ⟨fuel, hr⟩
    cases fuel with
    | zero => cases hr
    | succ fuel =>
      rw [run, h] at hr
      exact ⟨fuel, hr⟩
  · rintro ⟨fuel, hr⟩
    exact ⟨fuel + 1, by rw [run, h]; exact hr⟩

theorem ends_of_inr {r' : ρ} (h : L s = .inr r') : L.Ends s r ↔ r' = r := by
  constructor
  · rintro ⟨fuel, hr⟩
    cases fuel with
    | zero => cases hr
    | succ fuel =>
      rw [run, h] at hr
      exact Option.some.inj hr
  · rintro rfl
    exact ⟨1, by rw [run, h]⟩

/-- A loop ends with one result only. -/
theorem Ends.unique {r' : ρ} (h : L.Ends s r) (h' : L.Ends s r') : r = r' := by
  obtain ⟨fuel, hr⟩ := h
  induction fuel generalizing s with
  | zero => cases hr
  | succ fuel ih =>
    rw [run] at hr
    cases hs : L s with
    | inl t =>
      rw [hs] at hr
      exact ih ((ends_of_inl hs).1 h') hr
    | inr r₀ =>
      rw [hs] at hr
      cases hr
      exact (ends_of_inr hs).1 h'

/-- **The rule for endless loops.** Where the invariant holds the loop goes on, and it holds again. -/
theorem not_ends_of_invariant {I : σ → Prop} (step : ∀ s, I s → ∃ t, L s = .inl t ∧ I t)
    (h : I s) : ¬ L.Ends s r := by
  rintro ⟨fuel, hr⟩
  induction fuel generalizing s with
  | zero => cases hr
  | succ fuel ih =>
    obtain ⟨t, hstep, ht⟩ := step s h
    rw [run, hstep] at hr
    exact ih ht hr

/-- **The rule for loops with a variant.** Each round ends with a result that is wanted, or keeps the
invariant with a smaller variant. -/
theorem ends_of_variant {I : Nat → σ → Prop} {Q : ρ → Prop}
    (step : ∀ v s, I v s →
      (∃ r, L s = .inr r ∧ Q r) ∨ ∃ t w, L s = .inl t ∧ w < v ∧ I w t)
    {v : Nat} (h : I v s) : ∃ r, L.Ends s r ∧ Q r := by
  induction v using Nat.strongRecOn generalizing s with
  | _ v ih =>
    rcases step v s h with ⟨r, hend, hr⟩ | ⟨t, w, hstep, hlt, ht⟩
    · exact ⟨r, (ends_of_inr hend).2 rfl, hr⟩
    · obtain ⟨r, hends, hr⟩ := ih w hlt ht
      exact ⟨r, (ends_of_inl hstep).2 hends, hr⟩

namespace Reached

theorem ends_iff (h : L.Reached s t) : L.Ends s r ↔ L.Ends t r := by
  induction h with
  | refl => exact Iff.rfl
  | next _ hstep ih => exact ih.trans (ends_of_inl hstep)

theorem head (h : L s = .inl t) (ht : L.Reached t u) : L.Reached s u := by
  induction ht with
  | refl => exact .next .refl h
  | next _ hstep ih => exact .next ih hstep

/-- What every round keeps holds of every reached state. -/
theorem invariant {I : σ → Prop} (step : ∀ t u, L t = .inl u → I t → I u) (h : L.Reached s t)
    (h0 : I s) : I t := by
  induction h with
  | refl => exact h0
  | next _ hstep ih => exact step _ _ hstep ih

/-- A loop that reaches a round which leads to itself does not end. -/
theorem not_ends_of_cycle (h : L.Reached s t) (hc : L t = .inl t) : ¬ L.Ends s r := by
  rw [h.ends_iff]
  refine not_ends_of_invariant (I := (· = t)) (fun s hs => ⟨t, ?_, rfl⟩) rfl
  rw [hs]
  exact hc

end Reached

/-- A loop ends with what its last reached round gives. -/
theorem ends_iff : L.Ends s r ↔ ∃ t, L.Reached s t ∧ L t = .inr r := by
  constructor
  · rintro ⟨fuel, hr⟩
    induction fuel generalizing s with
    | zero => cases hr
    | succ fuel ih =>
      rw [run] at hr
      cases hs : L s with
      | inl t =>
        rw [hs] at hr
        obtain ⟨u, hu, hend⟩ := ih hr
        exact ⟨u, hu.head hs, hend⟩
      | inr r' =>
        rw [hs] at hr
        exact ⟨s, .refl, hs.trans (congrArg _ (Option.some.inj hr))⟩
  · rintro ⟨t, ht, hend⟩
    exact ht.ends_iff.2 ((ends_of_inr hend).2 rfl)

/-- A loop whose measure falls from each reached round to the next ends. -/
theorem ends_of_measure (μ : σ → Nat) (h : ∀ t u, L.Reached s t → L t = .inl u → μ u < μ t) :
    ∃ r, L.Ends s r := by
  induction hn : μ s using Nat.strongRecOn generalizing s with
  | _ n ih =>
    cases hs : L s with
    | inl t =>
      obtain ⟨r, hr⟩ := ih (μ t) (hn ▸ h s t .refl hs)
        (fun u v hu huv => h u v (hu.head hs) huv) rfl
      exact ⟨r, (ends_of_inl hs).2 hr⟩
    | inr r => exact ⟨r, (ends_of_inr hs).2 rfl⟩

end Loop
