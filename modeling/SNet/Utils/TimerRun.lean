import Mathlib.Data.Int.Order.Basic
import SNet.Utils.HeapTimer
import SNet.Utils.MinHeap

/-!
# The heap timer in one thread

The calls of `HeapTimer` one after the other, as the functions of the source are written, with a
`MinHeap` over any correct `std::push_heap` and `std::pop_heap`. A handler may call everything,
`timer_loop` included, so that calls of `timer_loop` nest: each has its own local variables
(`LoopFrame`). The clock may show anything when it is read.

The three operations that the threads take in steps are those steps (`exec_startTimer`,
`exec_restartTimer`, `exec_handleTimeout`).
-/

namespace SNet.Utils

/-- The algorithms on heaps, for nodes with any expiry times. -/
abbrev TimerHeaps := ∀ expire : Nat → Int, HeapAlgorithms fun n m => decide (expire n < expire m)

instance isStrictWeakOrder_expire (expire : Nat → Int) :
    IsStrictWeakOrder Nat fun n m => decide (expire n < expire m) = true :=
  BinaryHeap.isStrictWeakOrder_of_key expire fun _ _ => decide_eq_true_iff

def TimerHeaps.sifting : TimerHeaps := fun _ => .sifting

namespace HeapTimer

variable (A : TimerHeaps) (s : HeapTimer)

def expire (n : Nat) : Int := (s.nodes n).expireTime

/-- What `heap_tree.top()` returns. -/
def front : Option Nat := s.heapData[0]?

/-- `heap_tree.insert`. -/
def insertBy (n : Nat) : HeapTimer :=
  { s with heapData := MinHeap.insert (A s.expire) s.heapData n }

/-- `heap_tree.pop`, whose result is not used. -/
def popBy : HeapTimer :=
  let nullptr := 0
  { s with heapData := (MinHeap.pop (A s.expire) nullptr s.heapData).2 }

/-- `start_timer` and what it returns. -/
def startTimer (now : Int) (interval : UInt32) (loop : Bool) : HeapTimer × UInt32 :=
  let n := s.created
  let s' := (s.make (s.startedNode now interval loop) n).insertBy A n
  ({ s' with
      timerIndex := s.timerIndex + 1
      timerNodes := Function.update s.timerNodes (s'.key n) (some n)
      returned := Function.update s.returned n (some (s'.key n)) },
    s'.key n)

/-- `restart_timer` and what it returns. -/
def restartTimer (now : Int) (id interval : UInt32) : HeapTimer × Bool :=
  match s.timerNodes id with
  | none => (s, false)
  | some m =>
    let n := s.created
    let s' := ((s.stop id m).make (restartedNode now (s.nodes m) interval) (s.timerOf m)).insertBy A n
    ({ s' with timerNodes := Function.update s'.timerNodes (s'.key n) (some n) }, true)

/-- Whether `handle_timeout` inserts the node again. -/
def reinserts (n : Nat) (rst : Bool) : Bool := rst && (s.nodes n).loop && !(s.nodes n).stopped

/-- `handle_timeout` when the handler has returned `rst`. -/
def handleTimeout (n : Nat) (rst : Bool) (now : Int) : HeapTimer :=
  if s.reinserts n rst then
    (s.setNode n { s.nodes n with expireTime := now + (s.nodes n).interval.toInt }).insertBy A n
  else if rst then s
  else s.stop (s.key n) n

end HeapTimer

/-- What `timer_loop` does after its loop: it returns, or calls itself once more. -/
inductive LoopEnd
  | returns (r : Int)
  | recurses
  deriving DecidableEq, Repr

/-- The last lines of `timer_loop`, with its variables `cur` and `node`. -/
def HeapTimer.loopEnd (s : HeapTimer) (cur : Int) : Option Nat → LoopEnd
  | some n => if cur < s.expire n then .returns (s.expire n - cur) else .recurses
  | none => .returns 1

/-- The node that is due by the condition of the loop. -/
def HeapTimer.due (s : HeapTimer) (cur : Int) : Option Nat → Option Nat
  | some n => if s.expire n ≤ cur then some n else none
  | none => none

/-- A call of `timer_loop`. -/
inductive LoopFrame
  /-- At the condition of the loop, with `cur` and `node`. -/
  | testing (cur : Int) (node : Option Nat)
  | handling (n : Nat)
  /-- In its recursive call, whose result it ignores. -/
  | recursed
  deriving DecidableEq, Repr

/-- The node that is out of the heap while its handler runs. -/
def LoopFrame.node : LoopFrame → Option Nat
  | .handling n => some n
  | .testing .. | .recursed => none

structure TimerRun where
  timer : HeapTimer := {}
  /-- The calls of `timer_loop` that are under way, the innermost first. -/
  frames : List LoopFrame := []
  /-- What the clock showed when it was last read. -/
  clock : Int := 0

inductive RunAction
  | start (now : Int) (interval : UInt32) (loop : Bool)
  | stop (id : UInt32)
  | restart (now : Int) (id interval : UInt32)
  | timerLoop (now : Int)
  | round (now : Int)
  | handled (rst : Bool) (now now' : Int)
  | finish (now : Int)
  /-- Another timer takes an index. -/
  | elsewhere

namespace TimerRun

variable (s : TimerRun)

/-- Whether the application may call: nothing is under way, or a handler. -/
def calling : Bool :=
  match s.frames with
  | [] | .handling _ :: _ => true
  | _ => false

/-- The node that the innermost `timer_loop` finds due. -/
def due : Option Nat :=
  match s.frames with
  | .testing cur node :: _ => s.timer.due cur node
  | _ => none

/-- The nodes whose handlers run. -/
def held : List Nat := s.frames.filterMap LoopFrame.node

/-- The node whose handler runs in the innermost `timer_loop`. -/
def inHand : Option Nat := s.frames.head?.bind LoopFrame.node

/-- What the innermost `timer_loop` does next, if it has left its loop. -/
def ending : Option LoopEnd :=
  match s.frames with
  | .testing cur node :: _ =>
    if s.timer.due cur node = none then some (s.timer.loopEnd cur node) else none
  | .recursed :: _ => some (.returns 1)
  | _ => none

end TimerRun

/-- The steps of calls that do not overlap. `round` pops the node that is due and, if it is stopped,
reads the heap and the clock for the next round; `handled` is the return of a handler with the rest of
its round; `finish` is the end of `timer_loop`. -/
def timerRun (A : TimerHeaps) : Machine TimerRun RunAction where
  enabled s
    | .start .. | .stop _ | .restart .. | .timerLoop _ => s.calling = true
    | .round _ => s.due ≠ none
    | .handled .. => s.inHand ≠ none
    | .finish _ => s.ending ≠ none
    | .elsewhere => True
  next s
    | .start now interval loop =>
      { s with timer := (s.timer.startTimer A now interval loop).1, clock := now }
    | .stop id => { s with timer := (s.timer.stopTimer id).1 }
    | .restart now id interval =>
      let (t, found) := s.timer.restartTimer A now id interval
      { s with timer := t, clock := if found then now else s.clock }
    | .timerLoop now => { s with frames := .testing now s.timer.front :: s.frames, clock := now }
    | .round now =>
      match s.due with
      | none => s
      | some n =>
        let t := s.timer.popBy A
        if (t.nodes n).stopped then
          { timer := t, frames := .testing now t.front :: s.frames.tail, clock := now }
        else { s with timer := t, frames := .handling n :: s.frames.tail }
    | .handled rst now now' =>
      match s.inHand with
      | none => s
      | some n =>
        let t := s.timer.handleTimeout A n rst now
        { timer := t, frames := .testing now' t.front :: s.frames.tail, clock := now' }
    | .finish now =>
      match s.ending with
      | some .recurses =>
        { s with
          frames := .testing now s.timer.front :: .recursed :: s.frames.tail, clock := now }
      | _ => { s with frames := s.frames.tail }
    | .elsewhere => { s with timer := { s.timer with timerIndex := s.timer.timerIndex + 1 } }

instance timerRun.decidableEnabled (A : TimerHeaps) (s : TimerRun) :
    ∀ a, Decidable ((timerRun A).enabled s a)
  | .start .. | .stop _ | .restart .. | .timerLoop _ => inferInstanceAs (Decidable (_ = _))
  | .round _ | .handled .. | .finish _ => inferInstanceAs (Decidable (_ ≠ _))
  | .elsewhere => inferInstanceAs (Decidable True)

/-- The clock does not go back. -/
def Forward (s : TimerRun) : RunAction → Prop
  | .start now _ _ | .restart now _ _ | .timerLoop now | .round now | .finish now => s.clock ≤ now
  | .handled _ now now' => s.clock ≤ now ∧ now ≤ now'
  | .stop _ | .elsewhere => True

instance decidableForward (s : TimerRun) : ∀ a, Decidable (Forward s a)
  | .start .. | .restart .. | .timerLoop _ | .round _ | .finish _ =>
    inferInstanceAs (Decidable (_ ≤ _))
  | .handled .. => inferInstanceAs (Decidable (_ ∧ _))
  | .stop _ | .elsewhere => inferInstanceAs (Decidable True)

/-! ## The steps of the threads -/

variable {s : HeapTimer} {t n : Nat} {now : Int} {interval k : UInt32} {loop rst : Bool}

theorem insertBy_sifting : s.insertBy .sifting n = s.insert n := by
  rw [HeapTimer.insertBy, HeapTimer.insert, MinHeap.insert]
  split
  · have hlast : (s.heapData.push n).size - 1 = s.heapData.size := by
      rw [Array.size_push, Nat.add_sub_cancel]
    simp only [TimerHeaps.sifting, HeapAlgorithms.sifting, hlast]
    rfl
  · next hsize =>
    have hnil : s.heapData = #[] := Array.size_eq_zero_iff.1 (by rw [Array.size_push] at hsize; omega)
    rw [hnil]
    rfl

theorem popBy_sifting : s.popBy .sifting = s.pop := by
  rw [HeapTimer.popBy, HeapTimer.pop, MinHeap.pop]
  split
  · rfl
  · next hne =>
    rw [TimerHeaps.sifting, HeapAlgorithms.sifting]
    cases hf : s.heapData[0]? with
    | none => exact absurd (Array.isEmpty_iff_size_eq_zero.2 (by simpa using hf)) hne
    | some f => simp only [hf, Array.pop_push]; rfl

/-- The calls of a thread that has been idle leave it idle. -/
theorem calls_idle {pc pc' : CallPc} (ht : s.calls t = .idle) :
    Function.update (Function.update (Function.update s.calls t pc) t pc') t .idle = s.calls := by
  rw [Function.update_idem, Function.update_idem, ← ht, Function.update_eq_self]

/-- `start_timer` is the three steps of a thread, one behind the other. -/
theorem exec_startTimer (ht : s.calls t = .idle) :
    heapTimer.exec s
      [.start t now interval loop, .insertStarted t s.created, .publish t s.created] =
      (s.startTimer .sifting now interval loop).1 := by
  have hcalls := @calls_idle s t (.inserting s.created) (.publishing s.created) ht
  simp only [Machine.exec, List.foldl, heapTimer, HeapTimer.startTimer, insertBy_sifting,
    HeapTimer.setCall, HeapTimer.insert, HeapTimer.make, HeapTimer.setNode, hcalls]
  rfl

/-- `restart_timer` of an id that is known is three steps. -/
theorem exec_restartTimer {m : Nat} (ht : s.calls t = .idle) (hfree : s.locked = false)
    (hk : s.timerNodes k = some m) :
    heapTimer.exec s
      [.restart t now k interval, .insertRestarted t s.created, .store t s.created] =
      (s.restartTimer .sifting now k interval).1 := by
  have hcalls := @calls_idle s t (.restarting s.created) (.storing s.created) ht
  simp only [Machine.exec, List.foldl, heapTimer, HeapTimer.restartTimer, hk, insertBy_sifting,
    HeapTimer.setCall, HeapTimer.insert, HeapTimer.make, HeapTimer.stop, HeapTimer.setNode, hcalls,
    ← hfree]
  rfl

/-- The rest of `handle_timeout` is the return of the handler and, for some nodes, an insertion. -/
theorem exec_handleTimeout :
    heapTimer.exec { s with loopPc := .handling n }
      (.handled n rst now :: if s.reinserts n rst then [.reinsert n] else []) =
      { s.handleTimeout .sifting n rst now with loopPc := .looping } := by
  cases rst with
  | false => rfl
  | true =>
    rw [HeapTimer.handleTimeout, HeapTimer.reinserts, Bool.true_and, insertBy_sifting]
    by_cases hre : ((s.nodes n).loop && !(s.nodes n).stopped) = true
    · simp only [Machine.exec, List.foldl, heapTimer, hre, if_true]
      rfl
    · simp only [Machine.exec, List.foldl, heapTimer, hre]
      rfl

end SNet.Utils
