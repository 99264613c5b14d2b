import SNet.Http.ParserUrlGrammar

/-!
# Noting the parts of a URL

A field is set where a part begins and grows with each further character, so that it shows the part
of a text of less than 2^16 characters.
-/

namespace SNet.Http.Parser

variable {u : Url} {uf uf' : UrlPart} {p q n : Nat} {buf pre mid post l : List UInt8} {c : UInt8}
  {part : Option (List UInt8)}

/-- Where a part stands in a text that begins at `p`. -/
def Stands (part : Option (List UInt8)) (text : List UInt8) (p q : Nat) : Prop :=
  ∀ cs ∈ part, ∃ pre post, text = pre ++ cs ++ post ∧ q = p + pre.length

theorem Stands.append (pre : List UInt8) {text : List UInt8}
    (h : Stands part text (p + pre.length) q) :
    Stands part (pre ++ text) p q := by
  intro cs hcs
  obtain ⟨x, y, rfl, rfl⟩ := h cs hcs
  exact ⟨pre ++ x, y, by simp only [List.append_assoc], by rw [List.length_append, Nat.add_assoc]⟩

theorem u16_of_lt (h : n < 2 ^ 16) : u16 n = n := Nat.mod_eq_of_lt h

theorem u16_succ : u16 (u16 n + 1) = u16 (n + 1) := Nat.mod_add_mod n (2 ^ 16) 1

namespace Url

/-- A part is noted that stands at `p`, if there is one. -/
def note (u : Url) (uf : UrlPart) (p : Nat) (part : Option (List UInt8)) : Url :=
  part.elim u fun cs => u.set uf p cs.length

theorem field_set_self : (u.set uf p n).field uf = some ⟨u16 p, u16 n⟩ := Function.update_self ..

theorem grow_set : (u.set uf p n).grow uf = u.set uf p (n + 1) := by
  rw [grow, field_set_self, Option.map_some, u16_succ]
  exact congrArg (Url.mk u.port) (Function.update_idem ..)

theorem field_set_of_ne (h : uf' ≠ uf) : (u.set uf p n).field uf' = u.field uf' :=
  Function.update_of_ne h ..

theorem field_note_of_ne (h : uf' ≠ uf) : (u.note uf p part).field uf' = u.field uf' := by
  cases part with
  | none => rfl
  | some cs => exact field_set_of_ne h

theorem shown_set_of_ne (h : uf' ≠ uf) : (u.set uf p n).shown buf uf' = u.shown buf uf' := by
  rw [shown, field_set_of_ne h, shown]

theorem shown_note_of_ne (h : uf' ≠ uf) : (u.note uf p part).shown buf uf' = u.shown buf uf' := by
  rw [shown, field_note_of_ne h, shown]

/-- A field that is noted shows its part of a text that is not too long. -/
theorem shown_set_self (hbuf : buf = pre ++ mid ++ post) (hlen : buf.length < 2 ^ 16)
    (hp : p = pre.length) (hn : n = mid.length) :
    (u.set uf p n).shown buf uf = some mid := by
  subst hbuf hp hn
  simp only [List.length_append] at hlen
  rw [shown, field_set_self, Option.map_some, u16_of_lt (by omega), u16_of_lt (by omega),
    List.append_assoc, List.drop_left, List.take_left]

theorem shown_note_self (hnone : u.shown buf uf = none) (hlen : buf.length < 2 ^ 16)
    (hpart : Stands part buf 0 p) :
    (u.note uf p part).shown buf uf = part := by
  cases part with
  | none => exact hnone
  | some cs =>
    obtain ⟨pre, post, hbuf, hp⟩ := hpart cs rfl
    exact shown_set_self hbuf hlen (hp.trans (Nat.zero_add _)) rfl

end Url

end SNet.Http.Parser
