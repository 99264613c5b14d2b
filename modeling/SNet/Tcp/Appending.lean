import SNet.Tcp.SendStream

/-!
# What `msend` appends and returns

`write_data` returns the size of the whole buffer. `mpush` adds these sizes up, and stops where one is
0 as a `uint32_t`. So `msend` appends all that it is given and returns its length only for the buffers
and fragments of `appendsAll_iff`: in practice one fragment and an empty buffer.
-/

namespace SNet.Tcp

/-- `msend` up to its `do_send`, and the value that it returns in the end. -/
def msend (c : TcpConnection) (thread : Nat) (frags : List Fragment) :
    (TcpConnection × List Event) × Int :=
  if c.isOpen then (push c thread frags, (mpush c.sendBuffer frags).2) else ((c, []), -1)

/-- `msend` appends the bytes of all fragments as one block, and returns how many these are. -/
structure AppendsAll (c : TcpConnection) (thread : Nat) (frags : List Fragment) : Prop where
  buffer : (msend c thread frags).1.1.sendBuffer = c.sendBuffer ++ frags.flatMap Fragment.bytes
  block : (msend c thread frags).1.2 = [.append thread frags (frags.flatMap Fragment.bytes)]
  returned : (msend c thread frags).2 = (frags.flatMap Fragment.bytes).length

/-! ## The condition -/

def Fragment.isNull : Fragment → Bool
  | .cString none => true
  | _ => false

/-- Nothing is to be appended to a buffer of `n` bytes behind a null C string, or behind a fragment
that leaves a multiple of 2^32 bytes. -/
def AllReached : (n : Nat) → List Fragment → Prop
  | _, [] => True
  | n, frag :: frags =>
    (frag.isNull = true ∨ 2 ^ 32 ∣ n + frag.bytes.length → frags.flatMap Fragment.bytes = []) ∧
      AllReached (n + frag.bytes.length) frags

/-- The sizes that a buffer of `n` bytes has before each fragment, up to a null C string. -/
def sizesBefore : (n : Nat) → List Fragment → Nat
  | _, [] => 0
  | n, frag :: frags =>
    if frag.isNull then 0 else n + sizesBefore (n + frag.bytes.length) frags

variable {c : TcpConnection} {t n : Nat} {buf : List UInt8} {frag : Fragment} {frags : List Fragment}

theorem bytes_of_isNull (h : frag.isNull = true) : frag.bytes = [] := by
  rcases frag with _ | _ | _ | _ | _
  all_goals first | rfl | cases h

theorem writeData_snd : (writeData buf frag).2 =
    if frag.isNull then 0 else (buf.length + frag.bytes.length) % 2 ^ 32 := by
  rcases frag with _ | _ | _ | _ | _
  all_goals first | rfl | exact congrArg (· % 2 ^ 32) List.length_append

/-- `write_data` returns 0. -/
theorem writeData_stops : (writeData buf frag).2 = 0 ↔
    frag.isNull = true ∨ 2 ^ 32 ∣ buf.length + frag.bytes.length := by
  rw [writeData_snd]
  split
  · next h => exact iff_of_true rfl (.inl h)
  · next h =>
    rw [← Nat.dvd_iff_mod_eq_zero]
    exact (or_iff_right h).symm

/-! ## What is appended -/

theorem allReached_of_nil (h : frags.flatMap Fragment.bytes = []) : AllReached n frags := by
  induction frags generalizing n with
  | nil => trivial
  | cons frag frags ih =>
    rw [List.flatMap_cons, List.append_eq_nil_iff] at h
    exact ⟨fun _ => h.2, ih h.2⟩

theorem mpush_fst_iff : (mpush buf frags).1 = buf ++ frags.flatMap Fragment.bytes ↔
    AllReached buf.length frags := by
  induction frags generalizing buf with
  | nil => exact iff_of_true (List.append_nil buf).symm trivial
  | cons frag frags ih =>
    rw [mpush, AllReached, ← writeData_stops, List.flatMap_cons, ← List.append_assoc,
      ← writeData_fst, ← List.length_append, ← writeData_fst]
    by_cases hlen : 0 < (writeData buf frag).2
    · simp only [if_pos hlen]
      rw [ih, and_iff_right]
      exact fun hzero => absurd hzero (Nat.ne_of_gt hlen)
    · simp only [if_neg hlen]
      rw [List.self_eq_append_right]
      have hzero : (writeData buf frag).2 = 0 := Nat.eq_zero_of_not_pos hlen
      exact ⟨fun h => ⟨fun _ => h, allReached_of_nil h⟩, fun h => h.1 hzero⟩

/-! ## What is returned -/

theorem dvd_sizesBefore (hn : 2 ^ 32 ∣ n) (h : frags.flatMap Fragment.bytes = []) :
    2 ^ 32 ∣ sizesBefore n frags := by
  induction frags with
  | nil => exact Nat.dvd_zero _
  | cons frag frags ih =>
    rw [List.flatMap_cons, List.append_eq_nil_iff] at h
    rw [sizesBefore, h.1]
    split
    · exact Nat.dvd_zero _
    · exact Nat.dvd_add hn (ih h.2)

/-- What is returned exceeds what was appended by the sizes of the buffer before. -/
theorem mpush_snd (h : AllReached buf.length frags) : (mpush buf frags).2 =
    Int.bmod (sizesBefore buf.length frags + (frags.flatMap Fragment.bytes).length) (2 ^ 32) := by
  induction frags generalizing buf with
  | nil => exact Int.zero_bmod.symm
  | cons frag frags ih =>
    obtain ⟨hstop, hrest⟩ := h
    rw [← List.length_append, ← writeData_fst] at hrest
    rw [← writeData_stops] at hstop
    rw [mpush, sizesBefore, List.flatMap_cons, List.length_append]
    by_cases hlen : 0 < (writeData buf frag).2
    · have hnull : frag.isNull = false := by
        refine Bool.eq_false_iff.2 fun hnull => ?_
        rw [writeData_snd, if_pos hnull] at hlen
        cases hlen
      simp only [if_pos hlen]
      rw [ih hrest, Int.add_bmod_bmod, writeData_snd, hnull, if_neg Bool.false_ne_true,
        if_neg Bool.false_ne_true, writeData_fst, List.length_append]
      rw [Int.natCast_emod, Int.emod_add_bmod]
      push_cast
      congr 1
      omega
    · have hzero : (writeData buf frag).2 = 0 := Nat.eq_zero_of_not_pos hlen
      simp only [if_neg hlen]
      rw [hstop hzero, List.length_nil]
      symm
      refine Int.bmod_eq_zero_of_dvd ?_
      rcases writeData_stops.1 hzero with hnull | hdvd
      · rw [if_pos hnull, bytes_of_isNull hnull]
        exact Int.dvd_zero _
      · split
        · next hnull =>
          rw [bytes_of_isNull hnull]
          exact Int.dvd_zero _
        · have hsum := Nat.dvd_add hdvd (dvd_sizesBefore hdvd (hstop hzero))
          have heq : ((buf.length + sizesBefore (buf.length + frag.bytes.length) frags : Nat) : Int) +
              (frag.bytes.length + 0 : Nat) = (buf.length + frag.bytes.length +
                sizesBefore (buf.length + frag.bytes.length) frags : Nat) := by
            push_cast
            omega
          rw [heq]
          exact Int.natCast_dvd_natCast.2 hsum

theorem bmod_add_eq_iff {m k : Nat} :
    Int.bmod (m + k) (2 ^ 32) = k ↔ k < 2 ^ 31 ∧ 2 ^ 32 ∣ m := by
  rw [Int.bmod_eq_iff (by decide)]
  constructor
  · rintro ⟨-, hlt, hdvd⟩
    omega
  · rintro ⟨hlt, hdvd⟩
    omega

/-- **`msend` appends its whole argument list** and returns its length, exactly where every fragment
is reached, the length fits an `int32_t` and the sizes of the buffer before the fragments add up to a
multiple of 2^32. -/
theorem appendsAll_iff (ho : c.isOpen = true) :
    AppendsAll c t frags ↔ AllReached c.sendBuffer.length frags ∧
      (frags.flatMap Fragment.bytes).length < 2 ^ 31 ∧
        2 ^ 32 ∣ sizesBefore c.sendBuffer.length frags := by
  have hmsend : msend c t frags = (push c t frags, (mpush c.sendBuffer frags).2) := if_pos ho
  constructor
  · intro h
    obtain ⟨hbuffer, -, hreturned⟩ := h
    rw [hmsend] at hbuffer hreturned
    have hreached := mpush_fst_iff.1 hbuffer
    exact ⟨hreached, bmod_add_eq_iff.1 ((mpush_snd hreached).symm.trans hreturned)⟩
  · rintro ⟨hreached, hlt⟩
    have hbuffer := mpush_fst_iff.2 hreached
    refine ⟨?_, ?_, ?_⟩
    · rw [hmsend]
      exact hbuffer
    · rw [hmsend, push, hbuffer, List.drop_left]
    · rw [hmsend]
      exact (mpush_snd hreached).trans (bmod_add_eq_iff.2 hlt)

/-- An open connection with nothing to send. -/
def openConnection : TcpConnection where
  readBuffer _ := 0
  connSd := 5
  connStatus := .connOpen

theorem appendsAll_iff_one : AppendsAll openConnection 1 [.string [97, 98]] :=
  (appendsAll_iff rfl).2 ⟨⟨by decide, trivial⟩, by decide, by decide⟩

/-- An empty fragment comes first. -/
theorem msend_stops : ¬ ∀ (c : TcpConnection) (t : Nat) (frags : List Fragment), c.isOpen = true →
    frags ≠ [] → AppendsAll c t frags := by
  intro h
  have hbuffer := (h openConnection 1 [.string [], .string [120]] rfl (by decide)).buffer
  revert hbuffer
  decide

end SNet.Tcp
