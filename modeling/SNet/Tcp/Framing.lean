import SNet.Library.Framing
import SNet.Tcp.ReceiveStream

/-!
# Cutting the received stream into packages

`process_data` against the framing of the stream. As long as `handle_package` gives the length of a
package that is there (`Follows`) and lets the loop stop at the rest (`Waits`), the calls deliver
what the framing cuts off the stream (`feed_decode`).

A `handle_package` that announces the length found in a header of fixed size follows its framing.
But the loop passes it the fill level in place of the length of the rest, so a header of which only
a part has arrived is read together with the stale bytes behind it. `framing_iff` says exactly when
that is harmless, `stale_header_closes` is an input on which it is not.
-/

namespace SNet.Tcp

open Memory

variable {F : Framing UInt8} {hp : PackageHandler} {buf : Nat → UInt8} {c : TcpConnection}
  {ctl : Bool} {pos readPos fuel n : Nat} {chunks pkgs : List (List UInt8)}

/-! ## One call of `process_data` -/

/-- Where a whole package lies at `readPos`, `handle_package` returns its length. -/
def Follows (hp : PackageHandler) (F : Framing UInt8) (buf : Nat → UInt8) (pos : Nat) : Prop :=
  ∀ readPos n, readPos ≤ pos → F.first (slice buf readPos (pos - readPos)) = some n →
    hp buf readPos pos = n

/-- Behind the last whole package `handle_package` makes the loop stop. -/
def Waits (hp : PackageHandler) (F : Framing UInt8) (buf : Nat → UInt8) (pos : Nat) : Prop :=
  let r := (F.unframe (slice buf 0 pos)).2
  let pkgLen := hp buf (pos - r.length) pos
  r ≠ [] → pkgLen ≤ kReadBufferSize ∧ (pkgLen ≤ 0 ∨ (r.length : Int) < pkgLen)

/-- The loop takes the whole packages off the front, then goes on at the rest. -/
theorem processLoop_unframe (hf : Follows hp F buf pos) {w : List UInt8}
    (hw : w = slice buf readPos (pos - readPos)) (hle : readPos ≤ pos)
    (hfuel : pos - readPos ≤ fuel) :
    ∃ fuel', (F.unframe w).2.length ≤ fuel' ∧ processLoop hp buf pos fuel readPos =
      ((F.unframe w).1 ++ (processLoop hp buf pos fuel' (pos - (F.unframe w).2.length)).1,
        (processLoop hp buf pos fuel' (pos - (F.unframe w).2.length)).2) := by
  induction w using Framing.unframe.induct F generalizing readPos fuel with
  | case1 w hnone =>
    have hlen : w.length = pos - readPos := by rw [hw, length_slice]
    refine ⟨fuel, ?_, ?_⟩
    · rw [Framing.unframe_of_none hnone, hlen]
      exact hfuel
    · rw [Framing.unframe_of_none hnone, hlen, Nat.sub_sub_self hle]
      rfl
  | case2 w n hsome ih =>
    have hlen : w.length = pos - readPos := by rw [hw, length_slice]
    have hpos := Framing.first_pos hsome
    have hn := Framing.first_le hsome
    have hhp : hp buf readPos pos = n := hf readPos n hle (hw ▸ hsome)
    have hdrop : w.drop n = slice buf (readPos + n) (pos - (readPos + n)) := by
      rw [hw, drop_slice (by omega), Nat.sub_sub]
    have htake : w.take n = slice buf readPos n := by rw [hw, take_slice (by omega)]
    cases fuel with
    | zero => omega
    | succ fuel =>
      obtain ⟨fuel', hfuel', hloop⟩ := ih hdrop (by omega)
        (show pos - (readPos + n) ≤ fuel by omega)
      refine ⟨fuel', ?_, ?_⟩
      · rw [Framing.unframe_of_some hsome]
        exact hfuel'
      · rw [Framing.unframe_of_some hsome, processLoop, if_pos (by omega), hhp,
          if_neg (by omega), Int.toNat_natCast, hloop, htake]
        rfl

theorem length_rest_le : (F.unframe (slice buf 0 pos)).2.length ≤ pos := by
  simpa using Framing.unframe_snd_length_le (F := F) (w := slice buf 0 pos)

/-- The bytes behind the last whole package. -/
theorem slice_rest : slice buf (pos - (F.unframe (slice buf 0 pos)).2.length)
    (F.unframe (slice buf 0 pos)).2.length = (F.unframe (slice buf 0 pos)).2 := by
  have h := Framing.drop_unframe (F := F) (w := slice buf 0 pos)
  rw [length_slice, drop_slice (Nat.sub_le _ _), Nat.sub_sub_self length_rest_le,
    Nat.zero_add] at h
  exact h

/-- Where `handle_package` waits at the rest, the loop delivers the packages and stops there. -/
theorem processLoop_of_waits (hf : Follows hp F buf pos) (hw : Waits hp F buf pos) :
    processLoop hp buf pos pos 0 = ((F.unframe (slice buf 0 pos)).1,
      some (pos - (F.unframe (slice buf 0 pos)).2.length)) := by
  have hle := @length_rest_le F buf pos
  obtain ⟨fuel', -, hloop⟩ := processLoop_unframe hf (w := slice buf 0 pos) rfl (Nat.zero_le pos)
    (Nat.le_refl pos)
  have hstop : processLoop hp buf pos fuel' (pos - (F.unframe (slice buf 0 pos)).2.length) =
      ([], some (pos - (F.unframe (slice buf 0 pos)).2.length)) := by
    refine processLoop_stop fun hlt => ?_
    obtain ⟨hlimit, hstop⟩ := hw fun h => by simp [h] at hlt
    refine ⟨hlimit, hstop.imp_right fun h => ?_⟩
    rw [Int.ofNat_sub hle, Int.sub_sub_self]
    exact h
  rw [hloop, hstop, List.append_nil]

/-- **One call.** What is delivered and what is kept are the packages and the rest of the framing. -/
theorem processData_of_waits (ctl : Bool) (hf : Follows hp F c.readBuffer (c.readBufferPos + n))
    (hw : Waits hp F c.readBuffer (c.readBufferPos + n)) :
    (processData hp c n ctl).2.1 = (F.unframe (c.offered n)).1.map .handleData ∧
      (processData hp c n ctl).1.unread = (F.unframe (c.offered n)).2 ∧
      (processData hp c n ctl).1.connStatus = c.connStatus := by
  have hle := @length_rest_le F c.readBuffer (c.readBufferPos + n)
  have hloop := processLoop_of_waits hf hw
  rw [processData_of_some (by rw [hloop]), hloop]
  refine ⟨rfl, ?_, rfl⟩
  rw [TcpConnection.offered, TcpConnection.unread]
  dsimp only
  rw [Nat.sub_sub_self hle]
  split
  · rw [slice_move, slice_rest]
  · next hlt =>
    rw [List.eq_nil_of_length_eq_zero (by omega : (F.unframe _).2.length = 0)]
    rfl

/-! ## A sequence of calls -/

/-- `::recv` stores `chunk`, and `process_data` is called. -/
def receiveChunk (hp : PackageHandler) (c : TcpConnection) (chunk : List UInt8) (ctl : Bool) :
    TcpConnection × List Event :=
  let r := processData hp (c.receive chunk) chunk.length ctl
  (r.1, r.2.1)

/-- The successive calls for a stream that arrives in `chunks`. -/
def feed (hp : PackageHandler) (ctl : Bool) :
    TcpConnection → List (List UInt8) → TcpConnection × List Event
  | c, [] => (c, [])
  | c, chunk :: chunks =>
    let r := receiveChunk hp c chunk ctl
    let r' := feed hp ctl r.1 chunks
    (r'.1, r.2 ++ r'.2)

/-- Each call finds a buffer and a fill level that meet `P`. -/
def EachCall (P : (readBuffer : Nat → UInt8) → (pos : Nat) → Prop) (hp : PackageHandler)
    (ctl : Bool) : TcpConnection → List (List UInt8) → Prop
  | _, [] => True
  | c, chunk :: chunks =>
    P (c.receive chunk).readBuffer (c.readBufferPos + chunk.length) ∧
      EachCall P hp ctl (receiveChunk hp c chunk ctl).1 chunks

theorem EachCall.mono {P Q : (Nat → UInt8) → Nat → Prop}
    (hPQ : ∀ buf pos, P buf pos → Q buf pos) (h : EachCall P hp ctl c chunks) :
    EachCall Q hp ctl c chunks := by
  induction chunks generalizing c with
  | nil => trivial
  | cons chunk chunks ih => exact ⟨hPQ _ _ h.1, ih h.2⟩

/-- **A sequence of calls** of a `handle_package` that waits delivers what the framing decodes. -/
theorem feed_decode (hf : EachCall (Follows hp F) hp ctl c chunks)
    (hw : EachCall (Waits hp F) hp ctl c chunks) :
    (feed hp ctl c chunks).2 = (F.decode c.unread chunks).1.map .handleData := by
  induction chunks generalizing c with
  | nil => rfl
  | cons chunk chunks ih =>
    obtain ⟨hev, hunread, -⟩ := processData_of_waits (c := c.receive chunk) ctl hf.1 hw.1
    rw [offered_receive] at hev hunread
    rw [feed, Framing.decode, List.map_append, ← hev, ← hunread]
    exact congrArg (_ ++ ·) (ih hf.2 hw.2)

/-! ## Announced lengths -/

/-- A `handle_package` that returns 0 for less than a header, and else what the header announces. -/
def announcing (F : Framing UInt8) : PackageHandler := fun buf data len =>
  if len < F.header then 0 else F.announce (slice buf data F.header)

/-- The bytes behind the last whole package are a part of a header that stale bytes complete: what
it announces is more than the buffer holds, or no more than this part. -/
def Misleads (F : Framing UInt8) (buf : Nat → UInt8) (pos : Nat) : Prop :=
  let r := (F.unframe (slice buf 0 pos)).2
  let pkgLen := F.announce (slice buf (pos - r.length) F.header)
  r ≠ [] ∧ r.length < F.header ∧ F.header ≤ pos ∧
    (0 < pkgLen ∧ pkgLen ≤ r.length ∨ kReadBufferSize < pkgLen)

theorem announcing_follows : Follows (announcing F) F buf pos := by
  intro readPos n hle h
  obtain ⟨hheader, hann, -⟩ := Framing.first_eq_some.1 h
  rw [length_slice] at hheader
  rw [take_slice hheader] at hann
  rw [announcing, if_neg (by omega), hann]

/-- What is left of a genuine stream: nothing, or the beginning of a package. -/
def Remnant (F : Framing UInt8) (r : List UInt8) : Prop :=
  r = [] ∨ ∃ p, F.Genuine p ∧ r <+: p ∧ r.length < p.length

theorem announcing_waits (hl : F.limit = kReadBufferSize)
    (hr : Remnant F (F.unframe (slice buf 0 pos)).2) (hm : ¬ Misleads F buf pos) :
    Waits (announcing F) F buf pos := by
  intro hne
  obtain ⟨p, hp, hpre, hlt⟩ := hr.resolve_left hne
  have hle := @length_rest_le F buf pos
  have hslice := @slice_rest F buf pos
  unfold Misleads at hm
  generalize (F.unframe (slice buf 0 pos)).2 = r at *
  generalize hpkgLen : announcing F buf (pos - r.length) pos = pkgLen
  unfold announcing at hpkgLen
  by_cases hheader : F.header ≤ r.length
  · -- the header is there, and announces `p`
    have htake : slice buf (pos - r.length) F.header = p.take F.header := by
      rw [← take_slice hheader, hslice, List.prefix_iff_eq_take.1 hpre, List.take_take,
        Nat.min_eq_left hheader]
    rw [if_neg (by omega), htake, hp.announced] at hpkgLen
    have := hp.le_limit
    omega
  · by_cases hpos : pos < F.header
    · rw [if_pos hpos] at hpkgLen
      omega
    · rw [if_neg hpos] at hpkgLen
      have hsafe : ¬ (0 < pkgLen ∧ pkgLen ≤ r.length ∨ kReadBufferSize < pkgLen) := fun h =>
        hm ⟨hne, by omega, by omega, hpkgLen ▸ h⟩
      omega

/-- A misled call closes the connection, or delivers something shorter than a header. -/
theorem processData_of_misleads (ctl : Bool) (hopen : c.connStatus = .connOpen)
    (hm : Misleads F c.readBuffer (c.readBufferPos + n)) :
    .closing ∈ (processData (announcing F) c n ctl).2.1 ∨
      ∃ q ps, packages (processData (announcing F) c n ctl).2.1 =
        (F.unframe (c.offered n)).1 ++ q :: ps ∧ q.length < F.header := by
  obtain ⟨hne, hshort, hheader, hpkgLen⟩ := hm
  have hle := @length_rest_le F c.readBuffer (c.readBufferPos + n)
  have hf : Follows (announcing F) F c.readBuffer (c.readBufferPos + n) := announcing_follows
  obtain ⟨fuel, hfuel, hloop⟩ := processLoop_unframe hf (w := c.offered n) rfl (Nat.zero_le _)
    (Nat.le_refl (c.readBufferPos + n))
  rw [packages_processData, hloop]
  rw [← TcpConnection.offered] at hne hshort hpkgLen hle
  generalize hpos : c.readBufferPos + n = pos at *
  generalize hr : (F.unframe (c.offered n)).2 = r at *
  have hrpos : 0 < r.length := List.length_pos_iff.2 hne
  have hann : announcing F c.readBuffer (pos - r.length) pos =
      F.announce (slice c.readBuffer (pos - r.length) F.header) := if_neg (by omega)
  rw [← hann] at hpkgLen
  by_cases hfits : announcing F c.readBuffer (pos - r.length) pos ≤ r.length
  · -- a part of the header is taken for a package
    right
    have hpkg : 0 < announcing F c.readBuffer (pos - r.length) pos := by omega
    have hfits' : announcing F c.readBuffer (pos - r.length) pos ≤
        (pos : Int) - (pos - r.length : Nat) := by omega
    rw [processLoop_deliver (by omega) hpkg hfits']
    refine ⟨_, _, rfl, ?_⟩
    rw [length_slice]
    omega
  · left
    have hlt : pos - r.length < pos := by omega
    rw [processLoop_reject (by omega) hlt (by omega) (by omega)] at hloop
    have hnone := congrArg Prod.snd hloop
    rw [← hpos] at hnone
    rw [processData_of_none hnone, close, if_pos (by rw [hopen]; decide)]
    exact List.mem_append_right _ List.mem_cons_self

theorem feed_cons {chunk : List UInt8} : feed hp ctl c (chunk :: chunks) =
    ((feed hp ctl (receiveChunk hp c chunk ctl).1 chunks).1,
      (receiveChunk hp c chunk ctl).2 ++ (feed hp ctl (receiveChunk hp c chunk ctl).1 chunks).2) :=
  rfl

/-- The calls that receive a genuine stream wait until one is misled, which is never made good. -/
theorem eachCall_of_genuine (ctl : Bool) (hl : F.limit = kReadBufferSize) (hgen : ∀ p ∈ pkgs, F.Genuine p)
    (hcut : c.unread ++ chunks.flatten = pkgs.flatten) (hopen : c.connStatus = .connOpen) :
    (EachCall (fun buf pos => ¬ Misleads F buf pos) (announcing F) ctl c chunks →
      EachCall (Waits (announcing F) F) (announcing F) ctl c chunks) ∧
    (packages (feed (announcing F) ctl c chunks).2 = pkgs →
      .closing ∉ (feed (announcing F) ctl c chunks).2 →
      EachCall (fun buf pos => ¬ Misleads F buf pos) (announcing F) ctl c chunks) := by
  induction chunks generalizing c pkgs with
  | nil => exact ⟨id, fun _ _ => trivial⟩
  | cons chunk chunks ih =>
    rw [List.flatten_cons, ← List.append_assoc, ← offered_receive] at hcut
    obtain ⟨qs, rfl, hrest⟩ := Framing.split_of_genuine hgen hcut
    have hqs : ∀ q ∈ qs, F.Genuine q := fun q hq => hgen q (List.mem_append_right _ hq)
    have hremnant : Remnant F (F.unframe ((c.receive chunk).offered chunk.length)).2 := by
      refine (Framing.unframe_snd_of_prefix hgen ⟨_, hcut⟩).imp_right ?_
      rintro ⟨p, hp, hpre, hlt⟩
      exact ⟨p, hgen p hp, hpre, hlt⟩
    by_cases hm : Misleads F (c.receive chunk).readBuffer (c.readBufferPos + chunk.length)
    · refine ⟨fun h => absurd hm h.1, fun hpkgs hclose => ?_⟩
      rw [feed_cons] at hpkgs hclose
      obtain hclosing | ⟨q, ps, hq, hlt⟩ :=
        processData_of_misleads (c := c.receive chunk) ctl hopen hm
      · exact absurd (List.mem_append_left _ hclosing) hclose
      · replace hq : packages (receiveChunk (announcing F) c chunk ctl).2 = _ := hq
        rw [packages_append, hq, List.append_assoc] at hpkgs
        have hqs' := List.append_cancel_left hpkgs
        have := (hqs q (hqs' ▸ List.mem_cons_self)).header_le
        omega
    · have hw := announcing_waits hl hremnant hm
      obtain ⟨hev, hunread, hstatus⟩ :=
        processData_of_waits (c := c.receive chunk) ctl announcing_follows hw
      obtain ⟨hwaits, hsafe⟩ := ih (c := (receiveChunk (announcing F) c chunk ctl).1) hqs
        (hunread ▸ hrest) (hstatus.trans hopen)
      refine ⟨fun h => ⟨hw, hwaits h.2⟩, fun hpkgs hclose => ⟨hm, hsafe ?_ ?_⟩⟩
      · replace hev : (receiveChunk (announcing F) c chunk ctl).2 = _ := hev
        rw [feed_cons, packages_append, hev, packages_map_handleData] at hpkgs
        exact List.append_cancel_left hpkgs
      · exact fun he => hclose (List.mem_append_right _ he)

/-- **Framing and the cut of the stream.** A genuine stream, cut in any way into chunks, is delivered
package by package and without closing the connection if and only if no call is misled by a header
of which a part has arrived. -/
theorem framing_iff (hl : F.limit = kReadBufferSize) (hgen : ∀ p ∈ pkgs, F.Genuine p)
    (hcut : chunks.flatten = pkgs.flatten) (hopen : c.connStatus = .connOpen)
    (hpos : c.readBufferPos = 0) :
    (packages (feed (announcing F) ctl c chunks).2 = pkgs ∧
      .closing ∉ (feed (announcing F) ctl c chunks).2) ↔
    EachCall (fun buf pos => ¬ Misleads F buf pos) (announcing F) ctl c chunks := by
  have hunread : c.unread = [] := by rw [TcpConnection.unread, hpos, slice_zero]
  obtain ⟨hwaits, hsafe⟩ := eachCall_of_genuine ctl hl hgen (by rw [hunread]; exact hcut) hopen
  refine ⟨fun h => hsafe h.1 h.2, fun h => ?_⟩
  rw [feed_decode (h.mono fun _ _ _ => announcing_follows) (hwaits h), hunread,
    Framing.decode_eq Framing.first_nil, List.nil_append, hcut]
  have hall := Framing.unframe_genuine (w := []) hgen
  rw [List.append_nil, Framing.unframe_nil, List.append_nil] at hall
  rw [hall, packages_map_handleData]
  exact ⟨rfl, by simp⟩

/-- The length of the package in the first four bytes, the lowest first. -/
def lengthFirst : Framing UInt8 where
  header := 4
  limit := kReadBufferSize
  announce h := (h.foldr (fun b n => b.toNat + 256 * n) 0 : Nat)

theorem framing_iff_cutBody :
    let c : TcpConnection := { readBuffer := fun _ => 127, connStatus := .connOpen }
    let fed := feed (announcing lengthFirst) true c [[4, 0, 0, 0, 5, 0, 0, 0], [9]]
    (packages fed.2 = [[4, 0, 0, 0], [5, 0, 0, 0, 9]] ∧ .closing ∉ fed.2) ↔
      EachCall (fun buf pos => ¬ Misleads lengthFirst buf pos) (announcing lengthFirst) true c
        [[4, 0, 0, 0, 5, 0, 0, 0], [9]] := by
  refine framing_iff rfl ?_ rfl rfl rfl
  intro p hp
  simp only [List.mem_cons, List.not_mem_nil, or_false] at hp
  obtain rfl | rfl := hp <;> exact ⟨by decide, by decide, by decide, by decide⟩

/-- The second of two packages of four bytes is cut behind its first byte. -/
theorem stale_header_closes : ¬ ∀ (F : Framing UInt8) (pkgs chunks : List (List UInt8))
    (c : TcpConnection) (ctl : Bool), F.limit = kReadBufferSize → (∀ p ∈ pkgs, F.Genuine p) →
    chunks.flatten = pkgs.flatten → c.connStatus = .connOpen → c.readBufferPos = 0 →
    EachCall (fun _ pos => pos ≤ kReadBufferSize) (announcing F) ctl c chunks →
    packages (feed (announcing F) ctl c chunks).2 = pkgs ∧
      .closing ∉ (feed (announcing F) ctl c chunks).2 := by
  intro h
  have hgen : ∀ p ∈ [[4, 0, 0, 0], [4, 0, 0, 0]], lengthFirst.Genuine p := by
    intro p hp
    simp only [List.mem_cons, List.not_mem_nil, or_false, or_self] at hp
    subst hp
    exact ⟨by decide, by decide, by decide, by decide⟩
  obtain ⟨-, hclose⟩ := h lengthFirst _ [[4, 0, 0, 0, 4], [0, 0, 0]]
    { readBuffer := fun _ => 127, connStatus := .connOpen } true rfl hgen rfl rfl rfl
    ⟨by decide, by decide, trivial⟩
  exact hclose (by decide)

end SNet.Tcp
