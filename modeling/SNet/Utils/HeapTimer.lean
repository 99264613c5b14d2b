import SNet.Library.BinaryHeap
import SNet.Library.Machine

/-!
# The heap timer

`HeapTimer` under calls from several threads and its own `timer_loop`. Each operation of the heap and
each section under `timer_mutex` is a step. What a handler calls is called by some thread; a node is
known by the number of nodes made before it.
-/

namespace SNet.Utils

structure TimerNode where
  timerId : UInt64 := 0
  interval : Int32
  loop : Bool
  stopped : Bool := false
  expireTime : Int
  deriving DecidableEq, Repr

/-- Where `timer_loop` stands. -/
inductive LoopPc
  | idle
  /-- About to call `top()` once more. -/
  | looping
  /-- Between `top()`, which returned a node that is due, and `pop()`. -/
  | due (n : Nat)
  | popped (n : Nat)
  /-- In the handler of a node. -/
  | handling (n : Nat)
  /-- In `handle_timeout`, about to insert a node again. -/
  | reinserting (n : Nat)
  deriving DecidableEq, Repr

/-- Where a thread stands in `start_timer` or, with `timer_mutex` locked, in `restart_timer`. -/
inductive CallPc
  | idle
  | inserting (n : Nat)
  | publishing (n : Nat)
  | restarting (n : Nat)
  | storing (n : Nat)
  deriving DecidableEq, Repr

structure HeapTimer where
  nodes : Nat → TimerNode := fun _ => { interval := 0, loop := false, expireTime := 0 }
  /-- How many nodes were made. -/
  created : Nat := 0
  heapData : Array Nat := #[]
  timerNodes : UInt32 → Option Nat := fun _ => none
  /-- `timer_index`, shared by all timers of one type. -/
  timerIndex : UInt64 := 1024
  /-- Whether `restart_timer` holds `timer_mutex`. -/
  locked : Bool := false
  loopPc : LoopPc := .idle
  calls : Nat → CallPc := fun _ => .idle
  /-- The node of `start_timer` whose timer a node belongs to. -/
  timerOf : Nat → Nat := id
  /-- What `start_timer` returned for its node. -/
  returned : Nat → Option UInt32 := fun _ => none

namespace HeapTimer

variable (s : HeapTimer)

/-- `CompareTimerNode`: `n` expires before `m`. -/
def before (n m : Nat) : Bool := (s.nodes n).expireTime < (s.nodes m).expireTime

/-- `heap_tree.insert`. -/
def insert (n : Nat) : HeapTimer := { s with heapData := BinaryHeap.push s.before s.heapData n }

/-- `heap_tree.pop`. -/
def pop : HeapTimer :=
  { s with heapData := if s.heapData.isEmpty then s.heapData else BinaryHeap.pop s.before s.heapData }

/-- The key under which a node is entered. -/
def key (n : Nat) : UInt32 := (s.nodes n).timerId.toUInt32

def setNode (n : Nat) (node : TimerNode) : HeapTimer :=
  { s with nodes := Function.update s.nodes n node }

def setCall (t : Nat) (pc : CallPc) : HeapTimer := { s with calls := Function.update s.calls t pc }

/-- `std::make_shared<TimerNode>`, for the timer `timer`. -/
def make (node : TimerNode) (timer : Nat) : HeapTimer :=
  { s.setNode s.created node with
    created := s.created + 1
    timerOf := Function.update s.timerOf s.created timer }

/-- Marks a node and takes out its entry. -/
def stop (id : UInt32) (n : Nat) : HeapTimer :=
  { s.setNode n { s.nodes n with stopped := true } with
    timerNodes := Function.update s.timerNodes id none }

/-- `stop_timer` and what it returns. -/
def stopTimer (id : UInt32) : HeapTimer × Bool :=
  match s.timerNodes id with
  | some n => (s.stop id n, true)
  | none => (s, false)

/-- The node that `start_timer` makes. -/
def startedNode (now : Int) (interval : UInt32) (loop : Bool) : TimerNode where
  timerId := s.timerIndex
  interval := interval.toInt32
  loop := loop
  expireTime := now + interval.toInt32.toInt

/-- The node that `restart_timer` makes for another; its `timer_id` stays 0. -/
def restartedNode (now : Int) (node : TimerNode) (interval : UInt32) : TimerNode :=
  let interval' := if 0 < interval then interval.toInt32 else node.interval
  { interval := interval', loop := node.loop, expireTime := now + interval'.toInt }

end HeapTimer

inductive TimerAction
  | start (t : Nat) (now : Int) (interval : UInt32) (loop : Bool)
  | insertStarted (t n : Nat)
  | publish (t n : Nat)
  | stop (id : UInt32)
  | restart (t : Nat) (now : Int) (id interval : UInt32)
  | insertRestarted (t n : Nat)
  | store (t n : Nat)
  | top (now : Int)
  | pop (n : Nat)
  | check (n : Nat)
  | handled (n : Nat) (rst : Bool) (now : Int)
  | reinsert (n : Nat)
  /-- Another timer takes an index. -/
  | elsewhere

/-- The steps of `start_timer`, `stop_timer`, `restart_timer` and `timer_loop`. `restart` finds the
entry, stops its node and makes the new one; `top` returns from `timer_loop` if nothing is due;
`handled` is the return of a handler. -/
def heapTimer : Machine HeapTimer TimerAction where
  enabled s
    | .start t .. => s.calls t = .idle
    | .insertStarted t n => s.calls t = .inserting n
    | .publish t n => s.calls t = .publishing n ∧ s.locked = false
    | .stop _ => s.locked = false
    | .restart t .. => s.calls t = .idle ∧ s.locked = false
    | .insertRestarted t n => s.calls t = .restarting n
    | .store t n => s.calls t = .storing n
    | .top _ => s.loopPc = .idle ∨ s.loopPc = .looping
    | .pop n => s.loopPc = .due n
    | .check n => s.loopPc = .popped n
    | .handled n rst _ => s.loopPc = .handling n ∧ (rst = true ∨ s.locked = false)
    | .reinsert n => s.loopPc = .reinserting n
    | .elsewhere => True
  next s
    | .start t now interval loop =>
      { (s.make (s.startedNode now interval loop) s.created).setCall t (.inserting s.created) with
        timerIndex := s.timerIndex + 1 }
    | .insertStarted t n => (s.insert n).setCall t (.publishing n)
    | .publish t n =>
      { s.setCall t .idle with
        timerNodes := Function.update s.timerNodes (s.key n) (some n)
        returned := Function.update s.returned n (some (s.key n)) }
    | .stop id => (s.stopTimer id).1
    | .restart t now id interval =>
      match s.timerNodes id with
      | none => s
      | some m =>
        { ((s.stop id m).make (HeapTimer.restartedNode now (s.nodes m) interval)
            (s.timerOf m)).setCall t (.restarting s.created) with locked := true }
    | .insertRestarted t n => (s.insert n).setCall t (.storing n)
    | .store t n =>
      { s.setCall t .idle with
        timerNodes := Function.update s.timerNodes (s.key n) (some n), locked := false }
    | .top now =>
      match s.heapData[0]? with
      | some n =>
        { s with loopPc := if (s.nodes n).expireTime ≤ now then .due n else .idle }
      | none => { s with loopPc := .idle }
    | .pop n => { s.pop with loopPc := .popped n }
    | .check n => { s with loopPc := if (s.nodes n).stopped then .looping else .handling n }
    | .handled n true now =>
      if (s.nodes n).loop && !(s.nodes n).stopped then
        { s.setNode n { s.nodes n with expireTime := now + (s.nodes n).interval.toInt } with
          loopPc := .reinserting n }
      else { s with loopPc := .looping }
    | .handled n false _ => { s.stop (s.key n) n with loopPc := .looping }
    | .reinsert n => { s.insert n with loopPc := .looping }
    | .elsewhere => { s with timerIndex := s.timerIndex + 1 }

instance heapTimer.decidableEnabled (s : HeapTimer) : ∀ a, Decidable (heapTimer.enabled s a)
  | .start .. | .insertStarted .. | .stop _ | .insertRestarted .. | .store .. | .pop _ | .check _
  | .reinsert _ => inferInstanceAs (Decidable (_ = _))
  | .publish .. | .restart .. | .handled .. => inferInstanceAs (Decidable (_ ∧ _))
  | .top _ => inferInstanceAs (Decidable (_ ∨ _))
  | .elsewhere => inferInstanceAs (Decidable True)

end SNet.Utils
