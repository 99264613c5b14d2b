import Mathlib.Logic.Function.Basic
import SNet.Library.Linearization
import SNet.Utils.LoopBuffer

/-!
# The loop buffer between threads

Only the calls that write take the lock; the thread that reads takes none, and the two sides meet in
the counters. Here the calls are taken apart at the accesses of shared memory: what one side loads of
the counter of the other, each byte that is stored or loaded, and the counter that is stored last.
The bytes between two barriers are accessed in any order. A counter that only the running thread
stores to is loaded in the step that uses it. Each step tells which stages of calls are passed in it
(`stages`); they lead every thread from call to call (`leads_step`).
-/

namespace SNet.Utils

open Memory Machine

/-- The template argument `Mutex`. -/
inductive MutexKind
  | mutex
  | nonMutex

/-- The calls that hold `write_mutex`. -/
inductive Locked
  | push (data : Nat → UInt8) (dataLen : UInt32)
  | empty
  | size
  | peek

/-- The calls that hand bytes to a handler. -/
inductive Showing
  | pop
  | read (limit : UInt32)

def Locked.toCall : Locked → Call
  | .push data dataLen => .push data dataLen
  | .empty => .empty
  | .size => .size
  | .peek => .peek

def Showing.toCall : Showing → Call
  | .pop => .pop
  | .read limit => .read limit

/-- Where a thread is that calls under the lock. `todo` are the bytes still to be copied. -/
inductive Writer
  | idle
  | waiting (c : Locked)
  | entered (c : Locked)
  | copying (data : Nat → UInt8) (dataLen : UInt32) (todo : List Nat)
  | leaving (c : Locked) (a : Answer)

/-- Where the thread is that reads. `todo` are the bytes that the handler has still to load, `got`
those that it has loaded. -/
inductive Reader
  | idle
  | entered (c : Showing)
  | fetching (c : Showing) (len : UInt32) (todo : List Nat) (got : Nat → UInt8)
  | committing (len : UInt32)
  | leaving (c : Call) (a : Answer)

/-- A buffer, who holds its lock, where its threads are, and how many of the bytes that a `read`
exposed are not yet committed. -/
structure Threads (S : BufferSize) (P : Type*) where
  buf : LoopBuffer S
  owner : Option P := none
  writers : P → Writer := fun _ => .idle
  reader : Reader := .idle
  exposed : Nat := 0

/-- What a thread does next, the one that reads in the second half. -/
inductive Access (P : Type*)
  | call (p : P) (c : Locked)
  | lock (p : P)
  | loadHead (p : P)
  | store (p : P) (i : Nat)
  | storeTail (p : P)
  | unlock (p : P)
  | enter (c : Showing)
  | commit (len : UInt32)
  | loadTail
  | load (i : Nat)
  | finish
  | leave

variable {S : BufferSize} {P : Type*} [DecidableEq P]

/-- The cell that `push` copies byte `i` to. -/
def LoopBuffer.target (b : LoopBuffer S) (dataLen : UInt32) (i : Nat) : Nat :=
  let writePos := b.tail &&& (S.val - 1)
  let tailSize := S.val - writePos
  if tailSize < dataLen then
    if i < tailSize.toNat then writePos.toNat + i else i - tailSize.toNat
  else writePos.toNat + i

/-- The cell that a handler finds byte `i` in. -/
def LoopBuffer.origin (b : LoopBuffer S) (i : Nat) : Nat := (b.head &&& (S.val - 1)).toNat + i

/-- How many bytes a handler is given. -/
def LoopBuffer.shown (b : LoopBuffer S) (c : Showing) : UInt32 :=
  let len := min (b.tail - b.head) (S.val - (b.head &&& (S.val - 1)))
  match c with
  | .pop => len
  | .read limit => if 0 < limit then min len limit else len

/-- What a handler is given where there is nothing. -/
def Showing.nothing : Showing → Answer
  | .pop => .popped [] 0
  | .read _ => .read [] 0

namespace Threads

/-- A state, with the stages of calls that were passed in the step to it. -/
abbrev Outcome (S : BufferSize) (P : Type*) : Type _ :=
  Option (Threads S P × List (Option P × Stage Call Answer))

variable (kind : MutexKind) (s : Threads S P) (p : P)

/-- `NonMutex` does nothing. -/
def isFree : Bool :=
  match kind with
  | .mutex => s.owner.isNone
  | .nonMutex => true

def take : Threads S P :=
  match kind with
  | .mutex => { s with owner := some p }
  | .nonMutex => s

def release : Threads S P :=
  match kind with
  | .mutex => { s with owner := none }
  | .nonMutex => s

def setWriter (w : Writer) : Threads S P := { s with writers := Function.update s.writers p w }

/-- A call under the lock has its answer. -/
def answered (c : Locked) (a : Answer) : Outcome S P :=
  some (s.setWriter p (.leaving c a), [(some p, .effect c.toCall a)])

/-- A call of the reading thread has its answer. -/
def handed (c : Call) (a : Answer) : Outcome S P :=
  some ({ s with reader := .leaving c a }, [(none, .effect c a)])

/-- One access. -/
def step : Access P → Outcome S P
  | .call p c =>
    match s.writers p with
    | .idle => some (s.setWriter p (.waiting c), [(some p, .call c.toCall)])
    | _ => none
  | .lock p =>
    match s.writers p with
    | .waiting c =>
      if s.isFree kind then some ((s.take kind p).setWriter p (.entered c), []) else none
    | _ => none
  | .loadHead p =>
    match s.writers p with
    | .entered (.push data dataLen) =>
      let bufLen := S.val - (s.buf.tail - s.buf.head)
      if bufLen < dataLen then s.answered p (.push data dataLen) (.pushed 0)
      else some (s.setWriter p (.copying data dataLen (List.range dataLen.toNat)), [])
    | .entered .empty => s.answered p .empty (.flag s.buf.empty)
    | .entered .size => s.answered p .size (.number s.buf.size)
    | .entered .peek => s.answered p .peek (.number s.buf.peek)
    | _ => none
  | .store p i =>
    match s.writers p with
    | .copying data dataLen todo =>
      if i ∈ todo then
        let buffer := Function.update s.buf.buffer (s.buf.target dataLen i) (data i)
        let s := { s with buf := { s.buf with buffer := buffer } }
        some (s.setWriter p (.copying data dataLen (todo.erase i)), [])
      else none
    | _ => none
  | .storeTail p =>
    match s.writers p with
    | .copying data dataLen [] =>
      { s with buf := { s.buf with tail := s.buf.tail + dataLen } }.answered p
        (.push data dataLen) (.pushed dataLen)
    | _ => none
  | .unlock p =>
    match s.writers p with
    | .leaving c a =>
      some ((s.release kind).setWriter p .idle, [(some p, .ret c.toCall a)])
    | _ => none
  | .enter c =>
    match s.reader with
    | .idle => some ({ s with reader := .entered c }, [(none, .call c.toCall)])
    | _ => none
  | .commit len =>
    match s.reader with
    | .idle =>
      if len.toNat ≤ s.exposed then
        some ({ s with reader := .committing len }, [(none, .call (.commit len))])
      else none
    | _ => none
  | .loadTail =>
    match s.reader with
    | .entered c =>
      if s.buf.tail - s.buf.head = 0 then s.handed c.toCall c.nothing
      else
        let len := s.buf.shown c
        some ({ s with reader := .fetching c len (List.range len.toNat) fun _ => 0 }, [])
    | _ => none
  | .load i =>
    match s.reader with
    | .fetching c len todo got =>
      if i ∈ todo then
        let got := Function.update got i (s.buf.buffer (s.buf.origin i))
        some ({ s with reader := .fetching c len (todo.erase i) got }, [])
      else none
    | _ => none
  | .finish =>
    match s.reader with
    | .fetching .pop len [] got =>
      { s with
        buf := { s.buf with head := s.buf.head + len }
        exposed := 0 }.handed .pop (.popped (slice got 0 len.toNat) len)
    | .fetching (.read limit) len [] got =>
      { s with exposed := len.toNat }.handed (.read limit)
        (.read (slice got 0 len.toNat) len.toInt32)
    | .committing len =>
      { s with
        buf := { s.buf with head := s.buf.head + len }
        exposed := s.exposed - len.toNat }.handed (.commit len) (.committed len)
    | _ => none
  | .leave =>
    match s.reader with
    | .leaving c a => some ({ s with reader := .idle }, [(none, .ret c a)])
    | _ => none

end Threads

/-- The threads as a machine, whose runs are the interleavings. -/
def threads (S : BufferSize) (P : Type*) [DecidableEq P] (kind : MutexKind) :
    Machine (Threads S P) (Access P) where
  enabled s a := (s.step kind a).isSome
  next s a := ((s.step kind a).map (·.1)).getD s

/-- The stages of calls that are passed in an access. -/
def stages (kind : MutexKind) (s : Threads S P) (a : Access P) :
    List (Option P × Stage Call Answer) :=
  ((s.step kind a).map (·.2)).getD []

instance threads.decidableEnabled {kind : MutexKind} (s : Threads S P) (a : Access P) :
    Decidable ((threads S P kind).enabled s a) :=
  inferInstanceAs (Decidable ((s.step kind a).isSome = true))

/-! ## The stages of a thread -/

def Writer.status : Writer → Status Call Answer
  | .idle => .idle
  | .waiting c | .entered c => .called c.toCall
  | .copying data dataLen _ => .called (.push data dataLen)
  | .leaving c a => .done c.toCall a

def Reader.status : Reader → Status Call Answer
  | .idle => .idle
  | .entered c | .fetching c .. => .called c.toCall
  | .committing len => .called (.commit len)
  | .leaving c a => .done c a

/-- How far a thread is with its call; `none` is the one that reads. -/
def Threads.status (s : Threads S P) : Option P → Status Call Answer
  | some p => (s.writers p).status
  | none => s.reader.status

/-- A step of a thread under the lock leads no other thread on. -/
theorem leads_writer {s s' : Threads S P} {p' : Option P} {p : P} {v w : Writer}
    {es : List (Stage Call Answer)} {tr : List (Option P × Stage Call Answer)}
    (hv : s.writers p = v) (hwriters : s'.writers = Function.update s.writers p w)
    (hreader : s'.reader = s.reader) (hlead : Status.Leads v.status es w.status)
    (htr : tr = es.map fun e => (some p, e)) :
    Status.Leads (s.status p') (stagesOf p' tr) (s'.status p') := by
  by_cases hp : some p = p'
  · subst hp
    rw [htr, stagesOf_map_self, Threads.status, Threads.status, hwriters, Function.update_self, hv]
    exact hlead
  · rw [htr, stagesOf_map_of_ne hp]
    cases p' with
    | none =>
      rw [Threads.status, Threads.status, hreader]
      exact .nil
    | some p' =>
      rw [Threads.status, Threads.status, hwriters,
        Function.update_of_ne fun he => hp (congrArg some he.symm)]
      exact .nil

theorem leads_reader {s s' : Threads S P} {p' : Option P} {r : Reader}
    {es : List (Stage Call Answer)} {tr : List (Option P × Stage Call Answer)}
    (hr : s.reader = r) (hwriters : s'.writers = s.writers)
    (hlead : Status.Leads r.status es s'.reader.status) (htr : tr = es.map fun e => (none, e)) :
    Status.Leads (s.status p') (stagesOf p' tr) (s'.status p') := by
  cases p' with
  | none =>
    rw [htr, stagesOf_map_self, Threads.status, Threads.status, hr]
    exact hlead
  | some p' =>
    rw [htr, stagesOf_map_of_ne (Option.some_ne_none p').symm, Threads.status, Threads.status,
      hwriters]
    exact .nil

/-! ## What an access does -/

/-- A call under the lock that has its answer as soon as `head` is loaded. -/
inductive Immediate (b : LoopBuffer S) : Locked → Answer → Prop
  | full {data : Nat → UInt8} {dataLen : UInt32} (h : b.peek < dataLen) :
    Immediate b (.push data dataLen) (.pushed 0)
  | empty : Immediate b .empty (.flag b.empty)
  | size : Immediate b .size (.number b.size)
  | peek : Immediate b .peek (.number b.peek)

namespace Threads

variable {kind : MutexKind} {s s' : Threads S P} {p : P} {es : List (Option P × Stage Call Answer)}

theorem step_call {c : Locked} (h : s.step kind (.call p c) = some (s', es)) :
    s.writers p = .idle ∧ s' = s.setWriter p (.waiting c) ∧ es = [(some p, .call c.toCall)] := by
  rw [step] at h
  split at h
  · next hw =>
    cases h
    exact ⟨hw, rfl, rfl⟩
  · cases h

theorem step_lock (h : s.step kind (.lock p) = some (s', es)) :
    ∃ c, s.writers p = .waiting c ∧ s.isFree kind = true ∧
      s' = (s.take kind p).setWriter p (.entered c) ∧ es = [] := by
  rw [step] at h
  split at h
  · next c hw =>
    obtain ⟨hfree, heq⟩ := Option.ite_none_right_eq_some.1 h
    cases heq
    exact ⟨c, hw, hfree, rfl, rfl⟩
  · cases h

/-- The call has its answer, or a push that fits begins to copy. -/
theorem step_loadHead (h : s.step kind (.loadHead p) = some (s', es)) :
    (∃ c a, s.writers p = .entered c ∧ Immediate s.buf c a ∧
      s' = s.setWriter p (.leaving c a) ∧ es = [(some p, .effect c.toCall a)]) ∨
    ∃ data dataLen, s.writers p = .entered (.push data dataLen) ∧ ¬ s.buf.peek < dataLen ∧
      s' = s.setWriter p (.copying data dataLen (List.range dataLen.toNat)) ∧ es = [] := by
  rw [step] at h
  split at h
  · next data dataLen hw =>
    dsimp only at h
    split at h
    · next hfull =>
      cases h
      exact .inl ⟨_, _, hw, .full hfull, rfl, rfl⟩
    · next hfits =>
      cases h
      exact .inr ⟨data, dataLen, hw, hfits, rfl, rfl⟩
  · next hw =>
    cases h
    exact .inl ⟨_, _, hw, .empty, rfl, rfl⟩
  · next hw =>
    cases h
    exact .inl ⟨_, _, hw, .size, rfl, rfl⟩
  · next hw =>
    cases h
    exact .inl ⟨_, _, hw, .peek, rfl, rfl⟩
  · cases h

theorem step_store {i : Nat} (h : s.step kind (.store p i) = some (s', es)) :
    ∃ data dataLen todo, s.writers p = .copying data dataLen todo ∧ i ∈ todo ∧
      s' = { s with
        buf := { s.buf with
          buffer := Function.update s.buf.buffer (s.buf.target dataLen i) (data i) } }.setWriter p
        (.copying data dataLen (todo.erase i)) ∧ es = [] := by
  rw [step] at h
  split at h
  · next data dataLen todo hw =>
    obtain ⟨hi, heq⟩ := Option.ite_none_right_eq_some.1 h
    cases heq
    exact ⟨data, dataLen, todo, hw, hi, rfl, rfl⟩
  · cases h

theorem step_storeTail (h : s.step kind (.storeTail p) = some (s', es)) :
    ∃ data dataLen, s.writers p = .copying data dataLen [] ∧
      s' = { s with buf := { s.buf with tail := s.buf.tail + dataLen } }.setWriter p
        (.leaving (.push data dataLen) (.pushed dataLen)) ∧
      es = [(some p, .effect (.push data dataLen) (.pushed dataLen))] := by
  rw [step] at h
  split at h
  · next data dataLen hw =>
    cases h
    exact ⟨data, dataLen, hw, rfl, rfl⟩
  · cases h

theorem step_unlock (h : s.step kind (.unlock p) = some (s', es)) :
    ∃ c a, s.writers p = .leaving c a ∧ s' = (s.release kind).setWriter p .idle ∧
      es = [(some p, .ret c.toCall a)] := by
  rw [step] at h
  split at h
  · next c a hw =>
    cases h
    exact ⟨c, a, hw, rfl, rfl⟩
  · cases h

theorem step_enter {c : Showing} (h : s.step kind (.enter c) = some (s', es)) :
    s.reader = .idle ∧ s' = { s with reader := .entered c } ∧ es = [(none, .call c.toCall)] := by
  rw [step] at h
  split at h
  · next hr =>
    cases h
    exact ⟨hr, rfl, rfl⟩
  · cases h

theorem step_commit {len : UInt32} (h : s.step kind (.commit len) = some (s', es)) :
    s.reader = .idle ∧ len.toNat ≤ s.exposed ∧ s' = { s with reader := .committing len } ∧
      es = [(none, .call (.commit len))] := by
  rw [step] at h
  split at h
  · next hr =>
    obtain ⟨hlen, heq⟩ := Option.ite_none_right_eq_some.1 h
    cases heq
    exact ⟨hr, hlen, rfl, rfl⟩
  · cases h

/-- There is nothing, or the handler is called. -/
theorem step_loadTail (h : s.step kind .loadTail = some (s', es)) :
    ∃ c, s.reader = .entered c ∧
      ((s.buf.tail - s.buf.head = 0 ∧ s' = { s with reader := .leaving c.toCall c.nothing } ∧
        es = [(none, .effect c.toCall c.nothing)]) ∨
      (s.buf.tail - s.buf.head ≠ 0 ∧
        s' = { s with
          reader := .fetching c (s.buf.shown c) (List.range (s.buf.shown c).toNat) (fun _ => 0) } ∧
        es = [])) := by
  rw [step] at h
  split at h
  · next c hr =>
    dsimp only at h
    split at h
    · next hzero =>
      cases h
      exact ⟨c, hr, .inl ⟨hzero, rfl, rfl⟩⟩
    · next hzero =>
      cases h
      exact ⟨c, hr, .inr ⟨hzero, rfl, rfl⟩⟩
  · cases h

theorem step_load {i : Nat} (h : s.step kind (.load i) = some (s', es)) :
    ∃ c len todo got, s.reader = .fetching c len todo got ∧ i ∈ todo ∧
      s' = { s with
        reader := .fetching c len (todo.erase i)
          (Function.update got i (s.buf.buffer (s.buf.origin i))) } ∧ es = [] := by
  rw [step] at h
  split at h
  · next c len todo got hr =>
    obtain ⟨hi, heq⟩ := Option.ite_none_right_eq_some.1 h
    cases heq
    exact ⟨c, len, todo, got, hr, hi, rfl, rfl⟩
  · cases h

/-- A call of the reading thread that loaded all it shows ends, or a `commit`. -/
theorem step_finish (h : s.step kind .finish = some (s', es)) :
    (∃ len got, s.reader = .fetching .pop len [] got ∧
      s' = { s with
        buf := { s.buf with head := s.buf.head + len }
        exposed := 0
        reader := .leaving .pop (.popped (slice got 0 len.toNat) len) } ∧
      es = [(none, .effect .pop (.popped (slice got 0 len.toNat) len))]) ∨
    (∃ limit len got, s.reader = .fetching (.read limit) len [] got ∧
      s' = { s with
        exposed := len.toNat
        reader := .leaving (.read limit) (.read (slice got 0 len.toNat) len.toInt32) } ∧
      es = [(none, .effect (.read limit) (.read (slice got 0 len.toNat) len.toInt32))]) ∨
    ∃ len, s.reader = .committing len ∧
      s' = { s with
        buf := { s.buf with head := s.buf.head + len }
        exposed := s.exposed - len.toNat
        reader := .leaving (.commit len) (.committed len) } ∧
      es = [(none, .effect (.commit len) (.committed len))] := by
  rw [step] at h
  split at h
  · next len got hr =>
    cases h
    exact .inl ⟨len, got, hr, rfl, rfl⟩
  · next limit len got hr =>
    cases h
    exact .inr (.inl ⟨limit, len, got, hr, rfl, rfl⟩)
  · next len hr =>
    cases h
    exact .inr (.inr ⟨len, hr, rfl, rfl⟩)
  · cases h

theorem step_leave (h : s.step kind .leave = some (s', es)) :
    ∃ c a, s.reader = .leaving c a ∧ s' = { s with reader := .idle } ∧
      es = [(none, .ret c a)] := by
  rw [step] at h
  split at h
  · next c a hr =>
    cases h
    exact ⟨c, a, hr, rfl, rfl⟩
  · cases h

end Threads

/-- Every access leads its thread on by the stages that it passes. -/
theorem leads_step {kind : MutexKind} {s s' : Threads S P} {a : Access P}
    {es : List (Option P × Stage Call Answer)} (h : s.step kind a = some (s', es)) (p : Option P) :
    Status.Leads (s.status p) (stagesOf p es) (s'.status p) := by
  cases a with
  | call p' c =>
    obtain ⟨hw, rfl, rfl⟩ := Threads.step_call h
    exact leads_writer hw rfl rfl (.call .nil) rfl
  | lock p' =>
    obtain ⟨c, hw, -, rfl, rfl⟩ := Threads.step_lock h
    cases kind with
    | mutex => exact leads_writer hw rfl rfl .nil rfl
    | nonMutex => exact leads_writer hw rfl rfl .nil rfl
  | loadHead p' =>
    obtain ⟨c, a, hw, -, rfl, rfl⟩ | ⟨data, dataLen, hw, -, rfl, rfl⟩ := Threads.step_loadHead h
    · exact leads_writer hw rfl rfl (.effect .nil) rfl
    · exact leads_writer hw rfl rfl .nil rfl
  | store p' i =>
    obtain ⟨data, dataLen, todo, hw, -, rfl, rfl⟩ := Threads.step_store h
    exact leads_writer hw rfl rfl .nil rfl
  | storeTail p' =>
    obtain ⟨data, dataLen, hw, rfl, rfl⟩ := Threads.step_storeTail h
    exact leads_writer hw rfl rfl (.effect .nil) rfl
  | unlock p' =>
    obtain ⟨c, a, hw, rfl, rfl⟩ := Threads.step_unlock h
    cases kind with
    | mutex => exact leads_writer hw rfl rfl (.ret .nil) rfl
    | nonMutex => exact leads_writer hw rfl rfl (.ret .nil) rfl
  | enter c =>
    obtain ⟨hr, rfl, rfl⟩ := Threads.step_enter h
    exact leads_reader hr rfl (.call .nil) rfl
  | commit len =>
    obtain ⟨hr, -, rfl, rfl⟩ := Threads.step_commit h
    exact leads_reader hr rfl (.call .nil) rfl
  | loadTail =>
    obtain ⟨c, hr, ⟨-, rfl, rfl⟩ | ⟨-, rfl, rfl⟩⟩ := Threads.step_loadTail h
    · exact leads_reader hr rfl (.effect .nil) rfl
    · exact leads_reader hr rfl .nil rfl
  | load i =>
    obtain ⟨c, len, todo, got, hr, -, rfl, rfl⟩ := Threads.step_load h
    exact leads_reader hr rfl .nil rfl
  | finish =>
    obtain ⟨len, got, hr, rfl, rfl⟩ | ⟨limit, len, got, hr, rfl, rfl⟩ | ⟨len, hr, rfl, rfl⟩ :=
      Threads.step_finish h
    · exact leads_reader hr rfl (.effect .nil) rfl
    · exact leads_reader hr rfl (.effect .nil) rfl
    · exact leads_reader hr rfl (.effect .nil) rfl
  | leave =>
    obtain ⟨c, a, hr, rfl, rfl⟩ := Threads.step_leave h
    exact leads_reader hr rfl (.ret .nil) rfl

end SNet.Utils
