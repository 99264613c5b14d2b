import SNet.Library.Machine

/-!
# Refinement of a component

What a user sees of a machine is the list of its actions, each with its answer
(`Machine.observe`). A specification says which answer to an action is allowed in which abstract
state, and which abstract states may follow. A machine refines the specification when each of its
steps is allowed between related states (`Runs.simulates`).
-/

namespace Machine

variable {σ τ α β : Type*} {M : Machine σ α} {answer : σ → α → β} {spec : τ → α → β → τ → Prop}
  {s : σ} {t t' t'' : τ} {as : List α} {obs : List (α × β)} {a : α} {b : β}

/-- The actions of a schedule with their answers. -/
def observe (M : Machine σ α) (answer : σ → α → β) : σ → List α → List (α × β)
  | _, [] => []
  | s, a :: as => (a, answer s a) :: observe M answer (M.next s a) as

/-- The observations that a specification allows, and where they lead. -/
inductive Allowed (spec : τ → α → β → τ → Prop) : τ → List (α × β) → τ → Prop
  | nil {t : τ} : Allowed spec t [] t
  | cons {t t' t'' : τ} {a : α} {b : β} {obs : List (α × β)} :
      spec t a b t' → Allowed spec t' obs t'' → Allowed spec t ((a, b) :: obs) t''

/-- **The simulation rule.** -/
theorem Runs.simulates {R : σ → τ → Prop}
    (step : ∀ s t a, M.enabled s a → R s t → ∃ t', spec t a (answer s a) t' ∧ R (M.next s a) t')
    (h : M.Runs s as) (h0 : R s t) :
    ∃ t', Allowed spec t (M.observe answer s as) t' ∧ R (M.exec s as) t' := by
  induction as generalizing s t with
  | nil => exact ⟨t, .nil, h0⟩
  | cons a as ih =>
    obtain ⟨t', hspec, hR⟩ := step s t a h.1 h0
    obtain ⟨t'', hallowed, hend⟩ := ih h.2 hR
    exact ⟨t'', .cons hspec hallowed, hend⟩

end Machine
