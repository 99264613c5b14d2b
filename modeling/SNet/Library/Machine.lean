import Mathlib.Data.List.Basic

/-!
# Guarded machines and their runs

A `Machine` has a guard and a step function for every action. A schedule, a list of actions, is a
run from a state when each action is enabled as its turn comes (`Machine.Runs`). The rules are the
two that a safety proof needs: an invariant of the enabled steps holds after every run
(`Runs.invariant`), and a run all of whose steps meet a further condition is a run of the machine
restricted to it (`Runs.restrict`), whose enabled steps may then use the condition. A machine may be
given a history variable (`Machine.record`), which changes none of its runs.
-/

/-- A machine: when an action may be taken, and the state that it leads to. -/
structure Machine (σ α : Type*) where
  enabled : σ → α → Prop
  next : σ → α → σ

namespace Machine

variable {σ α : Type*} {M : Machine σ α} {P : σ → α → Prop}

/-- The state after a schedule. -/
def exec (M : Machine σ α) (s : σ) (as : List α) : σ := as.foldl M.next s

/-- Every action of the schedule is enabled when its turn comes. -/
def Runs (M : Machine σ α) : σ → List α → Prop
  | _, [] => True
  | s, a :: as => M.enabled s a ∧ Runs M (M.next s a) as

/-- The actions of the schedule all meet `P`, each in the state in which it is taken. -/
def Steps (M : Machine σ α) (P : σ → α → Prop) : σ → List α → Prop
  | _, [] => True
  | s, a :: as => P s a ∧ Steps M P (M.next s a) as

/-- The machine that takes a step only where `P` holds as well. -/
def restrict (M : Machine σ α) (P : σ → α → Prop) : Machine σ α where
  enabled s a := M.enabled s a ∧ P s a
  next := M.next

instance Runs.decidable [∀ s a, Decidable (M.enabled s a)] :
    ∀ s as, Decidable (M.Runs s as)
  | _, [] => inferInstanceAs (Decidable True)
  | s, a :: as =>
    have := Runs.decidable (M.next s a) as
    inferInstanceAs (Decidable (M.enabled s a ∧ M.Runs (M.next s a) as))

instance Steps.decidable [∀ s a, Decidable (P s a)] : ∀ s as, Decidable (M.Steps P s as)
  | _, [] => inferInstanceAs (Decidable True)
  | s, a :: as =>
    have := Steps.decidable (M.next s a) as
    inferInstanceAs (Decidable (P s a ∧ M.Steps P (M.next s a) as))

@[simp] theorem exec_nil {s : σ} : M.exec s [] = s := rfl

@[simp] theorem exec_cons {s : σ} {a : α} {as : List α} :
    M.exec s (a :: as) = M.exec (M.next s a) as := rfl

theorem exec_append {s : σ} {as bs : List α} :
    M.exec s (as ++ bs) = M.exec (M.exec s as) bs := List.foldl_append

theorem runs_append {s : σ} {as bs : List α} :
    M.Runs s (as ++ bs) ↔ M.Runs s as ∧ M.Runs (M.exec s as) bs := by
  induction as generalizing s with
  | nil => exact (iff_of_eq (true_and _)).symm
  | cons a as ih => exact (and_congr_right fun _ => ih).trans and_assoc.symm

/-- **The invariant rule.** What holds at the start and is kept by every enabled step holds after
every run. -/
theorem Runs.invariant {I : σ → Prop} (step : ∀ s a, M.enabled s a → I s → I (M.next s a))
    {s : σ} {as : List α} (h : M.Runs s as) (h0 : I s) : I (M.exec s as) := by
  induction as generalizing s with
  | nil => exact h0
  | cons a as ih => exact ih h.2 (step s a h.1 h0)

theorem Runs.restrict {s : σ} {as : List α} (h : M.Runs s as) (hP : M.Steps P s as) :
    (M.restrict P).Runs s as := by
  induction as generalizing s with
  | nil => trivial
  | cons a as ih => exact ⟨⟨h.1, hP.1⟩, ih h.2 hP.2⟩

/-- The invariant rule for the runs whose steps all meet a condition. -/
theorem Runs.invariant_of_steps {I : σ → Prop}
    (step : ∀ s a, M.enabled s a → P s a → I s → I (M.next s a))
    {s : σ} {as : List α} (h : M.Runs s as) (hP : M.Steps P s as) (h0 : I s) :
    I (M.exec s as) :=
  Runs.invariant (M := M.restrict P) (fun s a he => step s a he.1 he.2) (h.restrict hP) h0

/-- A condition on the actions alone may be added to one on the steps. -/
theorem Steps.and_mem {Q : α → Prop} {s : σ} {as : List α} (h : M.Steps P s as)
    (hQ : ∀ a ∈ as, Q a) : M.Steps (fun s a => P s a ∧ Q a) s as := by
  induction as generalizing s with
  | nil => trivial
  | cons a as ih =>
    rcases List.forall_mem_cons.1 hQ with ⟨ha, hQ⟩
    exact ⟨⟨h.1, ha⟩, ih h.2 hQ⟩

/-- The machine behind another interface, each action of which stands for one of its own. -/
def comap {β : Type*} (M : Machine σ α) (f : β → α) : Machine σ β where
  enabled s b := M.enabled s (f b)
  next s b := M.next s (f b)

/-! ## History variables -/

variable {η : Type*} {upd : σ → α → η → η} {t : σ × η} {as : List α}

/-- The machine that keeps, next to its state, what `upd` records of its steps. -/
def record (M : Machine σ α) (upd : σ → α → η → η) : Machine (σ × η) α where
  enabled t a := M.enabled t.1 a
  next t a := (M.next t.1 a, upd t.1 a t.2)

theorem exec_record_fst : ((M.record upd).exec t as).1 = M.exec t.1 as := by
  induction as generalizing t with
  | nil => rfl
  | cons a as ih => exact ih

theorem Runs.record (h : M.Runs t.1 as) : (M.record upd).Runs t as := by
  induction as generalizing t with
  | nil => trivial
  | cons a as ih => exact ⟨h.1, ih h.2⟩

theorem Steps.record (h : M.Steps P t.1 as) :
    (M.record upd).Steps (fun t => P t.1) t as := by
  induction as generalizing t with
  | nil => trivial
  | cons a as ih => exact ⟨h.1, ih h.2⟩

end Machine
