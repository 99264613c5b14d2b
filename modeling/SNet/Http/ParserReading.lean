import SNet.Http.ParserRounds
import SNet.Http.ParserSound

/-!
# Reading a text

`Consumes h o bs cs h' o'`: between two rounds a parser `h`, in which `o` is open, reads the bytes
`bs`, whatever follows them; it calls back `cs` and becomes `h'`, in which `o'` is open. Texts that
are read one behind another are read together (`Consumes.trans`).
-/

namespace SNet.Http.Parser

open Codec (ResponseCallback)

/-- The string that is open, and its bytes so far. -/
abbrev OpenString := Option (Mark × List UInt8)

/-- The open string goes on. -/
def OpenString.add (o : OpenString) (bs : List UInt8) : OpenString := o.map fun s => (s.1, s.2 ++ bs)

/-- The marks of a run. -/
def marks : OpenString → Mark → Option (List UInt8)
  | none => fun _ => none
  | some (m, bs) => Function.update (fun _ => none) m (some bs)

variable {h h' h'' : Fields} {o o' o'' : OpenString} {bs bs' passed last l rest : List UInt8}
  {cs cs' : List ResponseCallback} {r : Round} {run : Run} {ch : UInt8} {p n skip : Nat}

@[simp] theorem marks_some_self {m : Mark} : marks (some (m, bs)) m = some bs := by
  simp [marks]

@[simp] theorem update_marks_some {m : Mark} :
    Function.update (marks (some (m, bs))) m (some bs') = marks (some (m, bs')) := by
  simp [marks]

@[simp] theorem update_marks_self {m : Mark} :
    Function.update (marks (some (m, bs))) m none = marks none := by
  funext m'
  simp [marks, Function.update_apply]

@[simp] theorem OpenString.add_none : add none bs = none := rfl

@[simp] theorem OpenString.add_nil : add o [] = o := by cases o <;> simp [add]

theorem OpenString.add_append : add o (bs ++ bs') = (add o bs).add bs' := by
  cases o <;> simp [add]

theorem map_marks : (fun m => (marks o m).map (· ++ bs)) = marks (o.add bs) := by
  funext m
  rcases o with - | ⟨m', bs'⟩
  · rfl
  · simp only [marks, OpenString.add, Option.map_some, Function.update_apply]
    split <;> simp_all

/-! ## What a round tells -/

/-- The string that is open behind an event, and what it calls back; nothing where an event does not
fit the string that is open. -/
def Event.tell (h : Fields) (passed last : List UInt8) :
    OpenString → Event → Option (OpenString × List ResponseCallback)
  | none, .mark m => some (some (m, []), [])
  | some (m, bs), .mark m' => if m' = m then some (some (m, bs), []) else none
  | none, .data _ _ _ => some (none, [])
  | some (m, bs), .data m' withLast _ =>
    if m' = m then some (none, [m.callback h (bs ++ passed ++ if withLast then last else [])])
    else none
  | o, .notify cb _ => some (o, [.other cb])

/-- The same for events. -/
def tells (h : Fields) (passed last : List UInt8) :
    OpenString → List Event → Option (OpenString × List ResponseCallback)
  | o, [] => some (o, [])
  | o, e :: es => (e.tell h passed last o).bind fun (o', cs) =>
    (tells h passed last o' es).map (Prod.map id (cs ++ ·))

theorem tells_data {m : Mark} {advance : Bool} :
    tells h passed last (some (m, bs)) [.data m false advance] =
      some (none, [m.callback h (bs ++ passed)]) := by
  simp [tells, Event.tell]

theorem Run.perform_tell {e : Event} (p : Nat) (calls : List (ResponseCallback × Nat)) (fault : Bool)
    (he : e.tell h passed last o = some (o', cs)) :
    ∃ calls', calls'.map Prod.fst = cs ∧
      Run.perform ⟨h, marks o, calls, fault⟩ p passed last e =
        ⟨h, marks o', calls ++ calls', fault⟩ := by
  rcases o with - | ⟨m, bs⟩
  · cases e with
    | mark m =>
      cases he
      exact ⟨[], rfl, by simp [perform, marks]⟩
    | data m withLast advance =>
      cases he
      exact ⟨[], rfl, by simp [perform, marks]⟩
    | notify cb advance =>
      cases he
      exact ⟨_, rfl, rfl⟩
  · cases e with
    | mark m' =>
      obtain ⟨rfl, he⟩ := Option.ite_some_none_eq_some.1 he
      cases he
      exact ⟨[], rfl, by simp [perform]⟩
    | data m' withLast advance =>
      obtain ⟨rfl, he⟩ := Option.ite_some_none_eq_some.1 he
      cases he
      refine ⟨[(m'.callback h (bs ++ passed ++ if withLast then last else []),
        if advance then p + 1 else p)], rfl, ?_⟩
      unfold perform
      dsimp only
      rw [marks_some_self]
      dsimp only
      rw [update_marks_self]
    | notify cb advance =>
      cases he
      exact ⟨_, rfl, rfl⟩

theorem Run.foldl_tells {es : List Event} (p : Nat) (calls : List (ResponseCallback × Nat))
    (fault : Bool) (he : tells h passed last o es = some (o', cs)) :
    ∃ calls', calls'.map Prod.fst = cs ∧
      es.foldl (fun r e => Run.perform r p passed last e) ⟨h, marks o, calls, fault⟩ =
        ⟨h, marks o', calls ++ calls', fault⟩ := by
  induction es generalizing o cs calls with
  | nil =>
    cases he
    exact ⟨[], rfl, by simp⟩
  | cons e es ih =>
    obtain ⟨⟨o₁, cs₁⟩, he₁, he⟩ := Option.bind_eq_some_iff.1 he
    obtain ⟨⟨o₂, cs₂⟩, he₂, he⟩ := Option.map_eq_some_iff.1 he
    cases he
    obtain ⟨calls₁, hcs₁, hperform⟩ := Run.perform_tell p calls fault he₁
    obtain ⟨calls₂, hcs₂, hfold⟩ := ih (calls ++ calls₁) he₂
    refine ⟨calls₁ ++ calls₂, by rw [List.map_append, hcs₁, hcs₂], ?_⟩
    rw [List.foldl_cons, hperform, hfold, List.append_assoc]

/-! ## Rounds one behind another -/

namespace Run

theorem loop_skip (hle : skip ≤ l.length) :
    run.loop p skip l = run.loop (p + skip) 0 (l.drop skip) := by
  induction l generalizing p skip with
  | nil =>
    obtain rfl : skip = 0 := Nat.le_zero.1 hle
    rfl
  | cons ch l ih =>
    cases skip with
    | zero => rfl
    | succ skip =>
      show run.loop (p + 1) skip l = _
      rw [ih (Nat.le_of_succ_le_succ hle), Nat.add_right_comm, Nat.add_assoc]
      rfl

theorem loop_next {o : Round} (hx : run.fields.round ch l = (.next o, n)) :
    run.loop p 0 (ch :: l) = ((run.after (p + n) n (ch :: l) o).advance ((ch :: l).take (n + 1))).loop
      (p + 1 + n) 0 (l.drop n) := by
  have hle := Fields.round_snd_le run.fields ch l
  rw [hx] at hle
  rw [← loop_skip hle]
  conv_lhs => unfold loop
  rw [hx]

end Run

/-! ## Texts -/

/-- The bytes `bs` are read, whatever follows them, and `cs` are called back. -/
def Consumes (h : Fields) (o : OpenString) (bs : List UInt8) (cs : List ResponseCallback) (h' : Fields)
    (o' : OpenString) : Prop :=
  ∀ calls fault p rest, ∃ calls' fault', calls'.map Prod.fst = cs ∧
    Run.loop ⟨h, marks o, calls, fault⟩ p 0 (bs ++ rest) =
      Run.loop ⟨h', marks o', calls ++ calls', fault'⟩ (p + bs.length) 0 rest

/-- The same of a text behind which there is nothing: the call returns behind it, without an error. -/
def Finishes (h : Fields) (o : OpenString) (bs : List UInt8) (cs : List ResponseCallback) : Prop :=
  ∀ calls fault p, ∃ calls' run', calls'.map Prod.fst = cs ∧ run'.calls = calls ++ calls' ∧
    run'.fields.httpErrno = .ok ∧ Run.loop ⟨h, marks o, calls, fault⟩ p 0 bs = (run', p + bs.length)

namespace Consumes

theorem nil : Consumes h o [] [] h o := fun calls fault _ _ =>
  ⟨[], fault, rfl, by rw [List.append_nil]; rfl⟩

theorem trans (ha : Consumes h o bs cs h' o') (hb : Consumes h' o' bs' cs' h'' o'') :
    Consumes h o (bs ++ bs') (cs ++ cs') h'' o'' := by
  intro calls fault p rest
  obtain ⟨calls₁, fault₁, hcs₁, heq₁⟩ := ha calls fault p (bs' ++ rest)
  obtain ⟨calls₂, fault₂, hcs₂, heq₂⟩ := hb (calls ++ calls₁) fault₁ (p + bs.length) rest
  refine ⟨calls₁ ++ calls₂, fault₂, by rw [List.map_append, hcs₁, hcs₂], ?_⟩
  rw [List.append_assoc, heq₁, heq₂, List.append_assoc, List.length_append, Nat.add_assoc]

theorem finishes (ha : Consumes h o bs cs h' o') (hb : Finishes h' o' bs' cs') :
    Finishes h o (bs ++ bs') (cs ++ cs') := by
  intro calls fault p
  obtain ⟨calls₁, fault₁, hcs₁, heq₁⟩ := ha calls fault p bs'
  obtain ⟨calls₂, run', hcs₂, hcalls, hok, heq₂⟩ := hb (calls ++ calls₁) fault₁ (p + bs.length)
  refine ⟨calls₁ ++ calls₂, run', by rw [List.map_append, hcs₁, hcs₂],
    hcalls.trans (List.append_assoc ..), hok, ?_⟩
  rw [heq₁, heq₂, List.length_append, Nat.add_assoc]

/-- A round that passes over a text. -/
theorem round (bs : List UInt8) (hround : ∀ rest, h.round ch (bs ++ rest) = (.next r, bs.length))
    (htell : tells r.fields ((ch :: bs).take bs.length) ((ch :: bs).drop bs.length) o r.events =
      some (o', cs)) :
    Consumes h o (ch :: bs) cs r.fields (o'.add (ch :: bs)) := by
  intro calls fault p rest
  obtain ⟨calls', hcs, hfold⟩ := Run.foldl_tells (p + bs.length) calls (fault || r.fault) htell
  refine ⟨calls', fault || r.fault, hcs, ?_⟩
  have htake : (ch :: (bs ++ rest)).take bs.length = (ch :: bs).take bs.length := by
    rw [← List.cons_append, List.take_append_of_le_length (Nat.le_succ _)]
  have hlast : ((ch :: (bs ++ rest)).drop bs.length).take 1 = (ch :: bs).drop bs.length := by
    have hlength : ((ch :: bs).drop bs.length).length = 1 := by
      rw [List.length_drop, List.length_cons]
      omega
    rw [← List.cons_append, List.drop_append_of_le_length (Nat.le_succ _),
      List.take_append_of_le_length hlength.ge, List.take_of_length_le hlength.le]
  rw [List.cons_append, Run.loop_next (hround rest)]
  have hafter : Run.after ⟨h, marks o, calls, fault⟩ (p + bs.length) bs.length (ch :: (bs ++ rest)) r =
      ⟨r.fields, marks o', calls ++ calls', fault || r.fault⟩ := by
    unfold Run.after
    rw [htake, hlast]
    exact hfold
  have hpassed : (ch :: (bs ++ rest)).take (bs.length + 1) = ch :: bs := by
    rw [List.take_succ_cons, List.take_left]
  rw [hafter, hpassed, List.drop_left, List.length_cons, Nat.add_right_comm, Nat.add_assoc]
  unfold Run.advance
  dsimp only
  rw [map_marks]

/-- A round that passes over a text with a loop, and takes the byte behind it. -/
theorem text {g : List UInt8 → Out × Nat} {b : UInt8}
    (hg : ∀ ch rest, h.round ch rest = g (ch :: rest))
    (hround : ∀ rest, g (bs ++ b :: rest) = (.next r, bs.length))
    (htell : tells r.fields bs [b] o r.events = some (o', cs)) :
    Consumes h o (bs ++ [b]) cs r.fields (o'.add (bs ++ [b])) := by
  obtain ⟨ch, tail, hbs⟩ := List.exists_cons_of_ne_nil (List.concat_ne_nil b bs)
  have hlength : tail.length = bs.length := by
    have := congrArg List.length hbs
    simpa using this.symm
  rw [hbs]
  refine round tail (fun rest => ?_) ?_
  · rw [hg, ← List.cons_append, ← hbs, List.append_assoc, List.singleton_append, hround, hlength]
  · rw [← hbs, hlength, List.take_left, List.drop_left]
    exact htell

/-- A round that takes one byte. -/
theorem byte (hround : ∀ rest, h.round ch rest = (.next r, 0))
    (htell : tells r.fields [] [ch] o r.events = some (o', cs)) :
    Consumes h o [ch] cs r.fields (o'.add [ch]) :=
  round [] hround htell

end Consumes

namespace Finishes

/-- The end of a buffer in which nothing is open. -/
theorem nil (hok : h.httpErrno = .ok) : Finishes h none [] [] := fun calls fault p =>
  ⟨[], Run.finish ⟨h, marks none, calls, fault⟩ p, rfl, by simp [Run.finish, Run.perform, marks],
    by rwa [Run.fields_finish], rfl⟩

/-- A round that ends the call. -/
theorem done (hround : h.round ch bs = (.done r, bs.length)) (hok : r.fields.httpErrno = .ok)
    (htell : tells r.fields ((ch :: bs).take bs.length) (((ch :: bs).drop bs.length).take 1) o
      r.events = some (o', cs)) :
    Finishes h o (ch :: bs) cs := by
  intro calls fault p
  obtain ⟨calls', hcs, hfold⟩ := Run.foldl_tells (p + bs.length) calls (fault || r.fault) htell
  have hafter : Run.after ⟨h, marks o, calls, fault⟩ (p + bs.length) bs.length (ch :: bs) r =
      ⟨r.fields, marks o', calls ++ calls', fault || r.fault⟩ := hfold
  refine ⟨calls', ⟨r.fields, marks o', calls ++ calls', fault || r.fault⟩, hcs, rfl, hok, ?_⟩
  unfold Run.loop
  rw [hround]
  dsimp only
  rw [hafter]
  rfl

/-- The same where the call goes on, to the end of the buffer. -/
theorem next (hround : h.round ch bs = (.next r, bs.length)) (hok : r.fields.httpErrno = .ok)
    (htell : tells r.fields ((ch :: bs).take bs.length) (((ch :: bs).drop bs.length).take 1) o
      r.events = some (none, cs)) :
    Finishes h o (ch :: bs) cs := by
  intro calls fault p
  obtain ⟨calls', hcs, hfold⟩ := Run.foldl_tells (p + bs.length) calls (fault || r.fault) htell
  have hafter : Run.after ⟨h, marks o, calls, fault⟩ (p + bs.length) bs.length (ch :: bs) r =
      ⟨r.fields, marks none, calls ++ calls', fault || r.fault⟩ := hfold
  obtain ⟨calls₁, run', hnil, hcalls, hok', hloop⟩ :=
    Finishes.nil hok (calls ++ calls') (fault || r.fault) (p + bs.length + 1)
  refine ⟨calls', run', hcs, ?_, hok', ?_⟩
  · rw [hcalls, List.map_eq_nil_iff.1 hnil, List.append_nil]
  · rw [Run.loop_next hround, hafter, List.drop_length, Nat.add_right_comm]
    unfold Run.advance
    dsimp only
    rw [map_marks, OpenString.add_none, hloop]
    rfl

end Finishes

/-! ## Bytes that only move the parser on -/

/-- The states of a first line behind its first byte, and others that only move on. -/
def State.inLine : State → Bool
  | .resH | .resHT | .resHTT | .resHTTP | .resHttpMajor | .resHttpDot | .resHttpMinor | .resHttpEnd
  | .resFirstStatusCode | .resStatusCode | .resStatus
  | .reqMethod | .reqSchema | .reqSchemaSlash | .reqSchemaSlashSlash | .reqServerStart | .reqServer
  | .reqServerWithAt | .reqPath | .reqQueryStringStart | .reqQueryString | .reqFragmentStart
  | .reqFragment | .reqHttpStart | .reqHttpH | .reqHttpHT | .reqHttpHTT | .reqHttpHTTP | .reqHttpMajor
  | .reqHttpDot | .reqHttpMinor | .reqHttpEnd | .reqLineAlmostDone | .headerAlmostDone
  | .headerValueDiscardWsAlmostDone => true
  | _ => false

/-- A byte that only moves the parser on. -/
def Fields.quietly (h : Fields) (ch : UInt8) : Option Fields :=
  if h.state.inLine then
    match Round.byte ⟨{ h with nread := h.nread + 1 }, [], false⟩ ch with
    | .next r => if r.events.isEmpty then some r.fields else none
    | _ => none
  else none

/-- Inside of a head a round counts its byte. -/
theorem Fields.round_eq (h : Fields) (ch : UInt8) (rest : List UInt8) (hs : h.state.parsingHeader)
    (hn : h.nread < maxHeaderSize) :
    h.round ch rest = Round.switch ⟨{ h with nread := h.nread + 1 }, [], false⟩ ch rest := by
  have hmod : (h.nread + 1) % 2 ^ 32 = h.nread + 1 :=
    Nat.mod_eq_of_lt (Nat.lt_of_le_of_lt hn (by decide))
  unfold Fields.round
  rw [if_pos hs, hmod]
  exact if_neg (Nat.not_lt_of_le hn)

/-- The states of a head in which a round takes one byte. -/
def State.takesByte (s : State) : Bool := s.parsingHeader && s ≠ .headerField && s ≠ .headerValue

theorem Fields.round_byte (h : Fields) (ch : UInt8) (rest : List UInt8) (hs : h.state.takesByte)
    (hn : h.nread < maxHeaderSize) :
    h.round ch rest = (Round.byte ⟨{ h with nread := h.nread + 1 }, [], false⟩ ch, 0) := by
  simp only [State.takesByte, Bool.and_eq_true, decide_eq_true_eq] at hs
  obtain ⟨⟨hs, hfield⟩, hvalue⟩ := hs
  rw [h.round_eq ch rest hs hn]
  unfold Round.switch
  dsimp only
  cases hstate : h.state
  case headerField => exact absurd hstate hfield
  case headerValue => exact absurd hstate hvalue
  case bodyIdentity | chunkData | bodyIdentityEof => rw [hstate] at hs; cases hs
  all_goals rfl

/-- A round that goes on has counted `n` bytes of its part. -/
def Out.Counts (n : Nat) : Out → Prop
  | .next r => r.fields.nread = n
  | _ => True

namespace Round

theorem expect_counts {c : UInt8} {s : State} {e : Errno} :
    (r.expect ch c s e).Counts r.fields.nread := by
  unfold expect
  split <;> trivial

theorem urlChar_counts : (r.urlChar ch).Counts r.fields.nread := by
  unfold urlChar
  dsimp only
  split <;> trivial

theorem reqMethod_counts : (r.reqMethod ch).Counts r.fields.nread := by
  unfold reqMethod
  split
  · trivial
  dsimp only
  split
  · rfl
  split
  · rfl
  split
  · split <;> trivial
  · trivial

theorem resStatus_counts : (r.resStatus ch).Counts r.fields.nread := by
  unfold resStatus
  split_ifs <;> trivial

theorem resStatusCode_counts : (r.resStatusCode ch).Counts r.fields.nread := by
  unfold resStatusCode
  split
  · dsimp only
    split <;> trivial
  split
  · trivial
  split
  · unfold resStatusStart
    dsimp only
    split
    · exact resStatus_counts (r := ((r.setMark .status).enter .resStatus).setIndex 0)
    · trivial
  · trivial

theorem byte_counts (ch : UInt8) (hs : r.fields.state.inLine) :
    (r.byte ch).Counts r.fields.nread := by
  unfold byte
  cases hstate : r.fields.state <;> dsimp only
  all_goals try exact absurd hs (by rw [hstate]; decide)
  case reqMethod => exact reqMethod_counts
  case reqSchema | reqSchemaSlash | reqSchemaSlashSlash | reqServerStart =>
    unfold reqSchema
    split
    · trivial
    · exact urlChar_counts
  case reqServer | reqServerWithAt | reqPath | reqQueryStringStart | reqQueryString |
      reqFragmentStart | reqFragment =>
    unfold reqUrl
    split
    · trivial
    split
    · trivial
    · exact urlChar_counts
  case resFirstStatusCode => unfold resFirstStatusCode; split_ifs <;> trivial
  case resStatusCode => exact resStatusCode_counts
  case resStatus => exact resStatus_counts
  case reqHttpStart => unfold reqHttpStart; split_ifs <;> trivial
  case reqHttpMajor | reqHttpMinor | resHttpMajor | resHttpMinor =>
    unfold expectDigit
    split_ifs <;> trivial
  case reqHttpEnd => unfold reqHttpEnd; split_ifs <;> trivial
  all_goals exact expect_counts

end Round

theorem Fields.quietly_of (hs : h.state.inLine)
    (hbyte : Round.byte ⟨{ h with nread := h.nread + 1 }, [], false⟩ ch = .next ⟨h', [], false⟩) :
    h.quietly ch = some h' := by
  unfold quietly
  rw [if_pos hs, hbyte]
  rfl

theorem Fields.round_of_quietly (hq : h.quietly ch = some h') (hn : h.nread < maxHeaderSize) :
    h'.nread = h.nread + 1 ∧
      ∃ r : Round, r.fields = h' ∧ r.events = [] ∧ ∀ rest, h.round ch rest = (.next r, 0) := by
  obtain ⟨hs, hq⟩ := Option.ite_none_right_eq_some.1 hq
  have hcounts := Round.byte_counts (r := ⟨{ h with nread := h.nread + 1 }, [], false⟩) ch hs
  have hround (rest : List UInt8) := h.round_byte ch rest
    (by revert hs; cases h.state <;> decide) hn
  cases hbyte : Round.byte ⟨{ h with nread := h.nread + 1 }, [], false⟩ ch with
  | next r =>
    rw [hbyte] at hq hcounts
    obtain ⟨hnil, hq⟩ := Option.ite_some_none_eq_some.1 hq
    exact ⟨hq ▸ hcounts, r, hq, List.isEmpty_iff.1 hnil, fun rest => by rw [hround, hbyte]⟩
  | error r => rw [hbyte] at hq; cases hq
  | done r => rw [hbyte] at hq; cases hq

/-- Bytes of a line that only move the parser on. -/
theorem Consumes.quietly (bs : List UInt8) (hq : bs.foldlM Fields.quietly h = some h')
    (hn : h.nread + bs.length ≤ maxHeaderSize) :
    Consumes h o bs [] h' (o.add bs) ∧ h'.nread = h.nread + bs.length := by
  induction bs generalizing h o with
  | nil =>
    cases hq
    refine ⟨?_, rfl⟩
    rw [OpenString.add_nil]
    exact Consumes.nil
  | cons ch bs ih =>
    obtain ⟨h₁, hq₁, hq⟩ := Option.bind_eq_some_iff.1 hq
    rw [List.length_cons] at hn ⊢
    obtain ⟨hn₁, r, rfl, hevents, hround⟩ := Fields.round_of_quietly hq₁ (by omega)
    obtain ⟨hbs, hn'⟩ := ih (o := o.add [ch]) hq (by omega)
    refine ⟨?_, by omega⟩
    have hbyte := Consumes.byte (o := o) hround (by rw [hevents]; rfl)
    have hadd : (o.add [ch]).add bs = o.add (ch :: bs) := OpenString.add_append.symm
    exact hadd ▸ hbyte.trans hbs

end SNet.Http.Parser
