import Mathlib.Logic.Function.Basic

/-!
# Registries

A map that finds things by their keys is in step with a set of things when its entries are exactly
the things of the set, each under its own key (`Registry.Indexes`). A key may not be given yet. The
rules say when an insertion and an erasure keep the two in step. Where there is one map for each of several
owners, an update of one entry changes nothing else (`update_update_apply`).
-/

namespace Registry

variable {κ ν : Type*} {m : κ → Option ν} {S T : ν → Prop} {key key' : ν → Option κ}
  {k : κ} {u v : ν}

/-- The entries of `m` are exactly the things in `S`, each under its key. -/
def Indexes (m : κ → Option ν) (S : ν → Prop) (key : ν → Option κ) : Prop :=
  ∀ k v, m k = some v ↔ S v ∧ key v = some k

theorem indexes_empty (h : ∀ v, ¬ S v) : Indexes (fun _ => none) S key :=
  fun _ v => ⟨fun hv => (by cases hv), fun hv => absurd hv.1 (h v)⟩

theorem Indexes.congr (h : Indexes m S key) (hS : ∀ v, T v ↔ S v)
    (hkey : ∀ v, S v → key' v = key v) : Indexes m T key' := by
  intro k v
  rw [h k v, hS v]
  exact and_congr_right fun hv => by rw [hkey v hv]

theorem Indexes.eq_none (h : Indexes m S key) (hk : ∀ v, S v → key v ≠ some k) : m k = none := by
  rw [Option.eq_none_iff_forall_ne_some]
  exact fun v hv => hk v ((h k v).1 hv).1 ((h k v).1 hv).2

theorem Indexes.insert [DecidableEq κ] (h : Indexes m S key) (hk : key v = some k)
    (hnew : m k = none) (hT : ∀ u, T u ↔ S u ∨ u = v) :
    Indexes (Function.update m k (some v)) T key := by
  intro k' u
  rw [hT u]
  by_cases hkk : k' = k
  · subst hkk
    rw [Function.update_self, Option.some.injEq]
    constructor
    · rintro rfl
      exact ⟨.inr rfl, hk⟩
    · rintro ⟨hu | rfl, hku⟩
      · rw [(h k' u).2 ⟨hu, hku⟩] at hnew
        cases hnew
      · rfl
  · rw [Function.update_of_ne hkk, h k' u]
    refine ⟨fun hu => ⟨.inl hu.1, hu.2⟩, ?_⟩
    rintro ⟨hu | rfl, hku⟩
    · exact ⟨hu, hku⟩
    · exact absurd (Option.some.inj (hku.symm.trans hk)) hkk

theorem Indexes.erase [DecidableEq κ] (h : Indexes m S key)
    (hk : ∀ u, S u → (key u = some k ↔ u = v)) (hT : ∀ u, T u ↔ S u ∧ u ≠ v) :
    Indexes (Function.update m k none) T key := by
  intro k' u
  rw [hT u]
  by_cases hkk : k' = k
  · subst hkk
    rw [Function.update_self]
    refine ⟨fun hu => (by cases hu), ?_⟩
    rintro ⟨⟨hu, hne⟩, hku⟩
    exact absurd ((hk u hu).1 hku) hne
  · rw [Function.update_of_ne hkk, h k' u]
    refine ⟨fun hu => ⟨⟨hu.1, ?_⟩, hu.2⟩, fun hu => ⟨hu.1.1, hu.2⟩⟩
    rintro rfl
    exact hkk (Option.some.inj (hu.2.symm.trans ((hk u hu.1).2 rfl)))

/-! ## Families of maps -/

section

variable {ι : Type*} [DecidableEq ι] [DecidableEq κ] {M : ι → κ → ν} {i j : ι} {l : κ} {w : ν}

theorem update_update_apply :
    Function.update M i (Function.update (M i) k v) j l = if j = i ∧ l = k then v else M j l := by
  by_cases hj : j = i
  · subst hj
    rw [Function.update_self, Function.update_apply]
    simp
  · rw [Function.update_of_ne hj, if_neg fun h => hj h.1]

theorem update_update_of_ne (h : j = i → l ≠ k) :
    Function.update M i (Function.update (M i) k v) j l = M j l :=
  update_update_apply.trans (if_neg fun he => h he.1 he.2)

theorem update_update_cases (h : Function.update M i (Function.update (M i) k v) j l = w) :
    (j = i ∧ l = k ∧ v = w) ∨ M j l = w := by
  rw [update_update_apply] at h
  split at h
  · next he => exact .inl ⟨he.1, he.2, h⟩
  · exact .inr h

end

end Registry
