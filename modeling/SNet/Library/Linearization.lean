import SNet.Library.Refinement

/-!
# Linearization

A call of one of several threads goes through three stages: it is made, it takes effect, and it
returns. A machine in which the steps of the threads interleave tells of each step which stages are
passed in it. A trace of stages is linearizable when the stages of every thread follow one another
(`Status.Leads`) and the effects, in the order in which they come, are what a specification of the
sequential component allows. The effect of a call then lies between its beginning and its end, so
their order is that of the calls wherever these do not overlap.
-/

namespace Machine

/-- What may happen to a call. -/
inductive Stage (κ β : Type*)
  | call (c : κ)
  | effect (c : κ) (b : β)
  | ret (c : κ) (b : β)

/-- How far a thread is with its call. -/
inductive Status (κ β : Type*)
  | idle
  | called (c : κ)
  | done (c : κ) (b : β)

variable {σ τ α θ κ β : Type*} {M : Machine σ α} {spec : τ → κ → β → τ → Prop}

namespace Status

/-- The stages of one thread: a call, its effect with an answer, and the return of this answer. -/
inductive Leads : Status κ β → List (Stage κ β) → Status κ β → Prop
  | nil {st : Status κ β} : Leads st [] st
  | call {c : κ} {es : List (Stage κ β)} {st : Status κ β} :
      Leads (.called c) es st → Leads .idle (.call c :: es) st
  | effect {c : κ} {b : β} {es : List (Stage κ β)} {st : Status κ β} :
      Leads (.done c b) es st → Leads (.called c) (.effect c b :: es) st
  | ret {c : κ} {b : β} {es : List (Stage κ β)} {st : Status κ β} :
      Leads .idle es st → Leads (.done c b) (.ret c b :: es) st

theorem Leads.append {st st' st'' : Status κ β} {es es' : List (Stage κ β)}
    (h : Leads st es st') (h' : Leads st' es' st'') : Leads st (es ++ es') st'' := by
  induction h with
  | nil => exact h'
  | call _ ih => exact .call (ih h')
  | effect _ ih => exact .effect (ih h')
  | ret _ ih => exact .ret (ih h')

end Status

theorem Allowed.append {t t' t'' : τ} {obs obs' : List (κ × β)} (h : Allowed spec t obs t')
    (h' : Allowed spec t' obs' t'') : Allowed spec t (obs ++ obs') t'' := by
  induction h with
  | nil => exact h'
  | cons hspec _ ih => exact .cons hspec (ih h')

theorem Allowed.single {t t' : τ} {c : κ} {b : β} (h : spec t c b t') :
    Allowed spec t [(c, b)] t' := .cons h .nil

/-! ## Traces of stages -/

/-- The stages that thread `p` passes. -/
def stagesOf [DecidableEq θ] (p : θ) (tr : List (θ × Stage κ β)) : List (Stage κ β) :=
  tr.filterMap fun e => if e.1 = p then some e.2 else none

theorem stagesOf_map_self [DecidableEq θ] {p : θ} {es : List (Stage κ β)} :
    stagesOf p (es.map fun e => (p, e)) = es := by
  rw [stagesOf, List.filterMap_map]
  exact (List.filterMap_congr fun e _ => if_pos rfl).trans List.filterMap_some

theorem stagesOf_map_of_ne [DecidableEq θ] {p p' : θ} {es : List (Stage κ β)} (h : p ≠ p') :
    stagesOf p' (es.map fun e => (p, e)) = [] := by
  rw [stagesOf, List.filterMap_map]
  exact List.filterMap_eq_nil_iff.2 fun e _ => if_neg h

def Stage.observation : Stage κ β → Option (κ × β)
  | .effect c b => some (c, b)
  | .call _ | .ret .. => none

/-- The calls in the order of their effects, each with its answer. -/
def effects (tr : List (θ × Stage κ β)) : List (κ × β) := tr.filterMap fun e => e.2.observation

/-- **Linearizability** of a trace. -/
structure Linearizable [DecidableEq θ] (spec : τ → κ → β → τ → Prop) (t : τ)
    (tr : List (θ × Stage κ β)) : Prop where
  threads : ∀ p, ∃ st, Status.Leads .idle (stagesOf p tr) st
  effects : ∃ t', Allowed spec t (effects tr) t'

/-- The stages that are passed in a run. -/
def trace (M : Machine σ α) (stages : σ → α → List (θ × Stage κ β)) :
    σ → List α → List (θ × Stage κ β)
  | _, [] => []
  | s, a :: as => stages s a ++ trace M stages (M.next s a) as

variable {stages : σ → α → List (θ × Stage κ β)} {s : σ} {t : τ} {as : List α}

/-- Each step leads every thread on by the stages that it passes, so the run does. -/
theorem Runs.leads [DecidableEq θ] {status : σ → θ → Status κ β}
    (step : ∀ s a, M.enabled s a → ∀ p,
      Status.Leads (status s p) (stagesOf p (stages s a)) (status (M.next s a) p))
    (h : M.Runs s as) (p : θ) :
    Status.Leads (status s p) (stagesOf p (M.trace stages s as)) (status (M.exec s as) p) := by
  induction as generalizing s with
  | nil => exact .nil
  | cons a as ih =>
    rw [trace, stagesOf, List.filterMap_append]
    exact (step s a h.1 p).append (ih h.2)

/-- **The linearization rule.** Each step keeps a relation to an abstract state, which follows the
effects of the step. -/
theorem Runs.effects {R : σ → τ → Prop}
    (step : ∀ s t a, M.enabled s a → R s t →
      ∃ t', Allowed spec t (effects (stages s a)) t' ∧ R (M.next s a) t')
    (h : M.Runs s as) (h0 : R s t) :
    ∃ t', Allowed spec t (Machine.effects (M.trace stages s as)) t' ∧ R (M.exec s as) t' := by
  induction as generalizing s t with
  | nil => exact ⟨t, .nil, h0⟩
  | cons a as ih =>
    obtain ⟨t', hfirst, hR⟩ := step s t a h.1 h0
    obtain ⟨t'', hrest, hend⟩ := ih h.2 hR
    refine ⟨t'', ?_, hend⟩
    rw [trace, Machine.effects, List.filterMap_append]
    exact hfirst.append hrest

end Machine
