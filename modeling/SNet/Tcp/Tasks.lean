import SNet.Library.Machine

/-!
# The tasks of a worker

`EpollWorker::run` works off a vector of tasks with a range-based loop and then clears it, while
`post_task` appends to the same vector. What a task posts is behind the end that the loop has taken,
and is cleared with the rest; if the vector has to grow, the loop goes on in freed memory.
`runsOnce_of_steps` says that nothing else goes wrong.
-/

namespace SNet.Tcp

/-- Where `run` stands: at the head of the loop, in `epoll_wait`, in the handlers of its events, in
the loop over the tasks, with its iterators as indices, in the call of one, or in `clear`, which runs
the destructors of the tasks. -/
inductive LoopPc
  | head
  | dispatching
  | iterating (i finish : Nat)
  | calling (i finish : Nat)
  | clearing
  | left
  /-- The vector has moved while its elements were in use. -/
  | invalid
  deriving DecidableEq, Repr

/-- A worker and what became of the tasks. A task is known by the number of those posted before. -/
structure TaskLoop where
  tasks : List Nat
  capacity : Nat
  pc : LoopPc := .head
  /-- The rounds of `run` that are over. -/
  rounds : Nat := 0
  /-- The round in which each task was posted, and `none` before `start`. -/
  posted : List (Option Nat)
  executed : List Nat := []
  deriving DecidableEq, Repr

inductive LoopAction
  /-- `epoll_wait` returns, with events or with an error other than `EINTR`. -/
  | wake
  | interrupt
  | post
  | beginTasks
  | callTask
  | taskReturns
  | endTasks
  | cleared
  /-- `is_running` is false. -/
  | leave
  deriving DecidableEq, Repr

namespace TaskLoop

/-- `tasks.push_back(task)`: a vector that is full moves its elements. -/
def pushBack (grow : Nat → Nat) (s : TaskLoop) : TaskLoop :=
  if s.tasks.length < s.capacity then { s with tasks := s.tasks ++ [s.posted.length] }
  else
    { s with
      tasks := s.tasks ++ [s.posted.length]
      capacity := grow s.capacity
      pc := if s.pc = .dispatching then .dispatching else .invalid }

/-- The code of the user runs: the handlers of events, a task, or the destructor of one. -/
def UserCode (s : TaskLoop) : Prop :=
  match s.pc with
  | .dispatching | .calling .. | .clearing => True
  | .head | .iterating .. | .left | .invalid => False

instance UserCode.decidable (s : TaskLoop) : Decidable s.UserCode := by
  unfold UserCode
  cases s.pc <;> infer_instance

/-- A worker before its first round, with the tasks that were posted by then. -/
def start (before capacity : Nat) : TaskLoop where
  tasks := List.range before
  capacity := capacity
  posted := List.replicate before none

end TaskLoop

open TaskLoop

/-- The rounds of `run`, for a way in which vectors grow. -/
def taskLoop (grow : Nat → Nat) : Machine TaskLoop LoopAction where
  enabled s
    | .wake | .interrupt | .leave => s.pc = .head
    | .post => s.UserCode
    | .beginTasks => s.pc = .dispatching
    | .callTask => ∃ i finish, s.pc = .iterating i finish ∧ i ≠ finish
    | .taskReturns => ∃ i finish, s.pc = .calling i finish
    | .endTasks => ∃ finish, s.pc = .iterating finish finish
    | .cleared => s.pc = .clearing
  next s
    | .wake => { s with pc := .dispatching }
    | .interrupt => { s with rounds := s.rounds + 1 }
    | .leave => { s with pc := .left }
    | .post => { s.pushBack grow with posted := s.posted ++ [some s.rounds] }
    | .beginTasks => { s with pc := .iterating 0 s.tasks.length }
    | .callTask =>
      match s.pc with
      | .iterating i finish =>
        { s with pc := .calling i finish, executed := s.executed ++ s.tasks[i]?.toList }
      | _ => s
    | .taskReturns =>
      match s.pc with
      | .calling i finish => { s with pc := .iterating (i + 1) finish }
      | _ => s
    | .endTasks => { s with pc := .clearing }
    | .cleared => { s with tasks := [], pc := .head, rounds := s.rounds + 1 }

namespace TaskLoop

/-- What is promised of posted tasks: they are executed in the order in which they were posted, each
one once, before the round behind theirs is over, and the vector does not move under the loop. -/
structure RunsOnce (s : TaskLoop) : Prop where
  order : s.executed = List.range s.executed.length
  posted : s.executed.length ≤ s.posted.length
  deadline : ∀ i r, s.posted[i]? = some (some r) → r + 2 ≤ s.rounds → i < s.executed.length
  valid : s.pc ≠ .invalid

/-- Nothing is posted while the tasks are worked off and cleared. -/
def PostsOutside (s : TaskLoop) (a : LoopAction) : Prop := a = .post → s.pc = .dispatching

/-- The tasks that are still to be called, as far as the worker gets to them. -/
def rest (s : TaskLoop) : List Nat :=
  match s.pc with
  | .head | .dispatching | .left => s.tasks
  | .iterating i _ => s.tasks.drop i
  | .calling i _ => s.tasks.drop (i + 1)
  | .clearing | .invalid => []

/-- The loop ends where the tasks do, and the vector has not moved. -/
def InBounds (s : TaskLoop) : Prop :=
  match s.pc with
  | .iterating _ finish | .calling _ finish => finish = s.tasks.length
  | .head | .dispatching | .clearing | .left => True
  | .invalid => False

/-- Every posted task is executed or still to be called, in order, and one that is to be called was
posted before `start` or by a handler of this round. -/
structure Kept (s : TaskLoop) : Prop where
  order : s.executed ++ s.rest = List.range s.posted.length
  inBounds : s.InBounds
  recent : ∀ i r, s.posted[i]? = some (some r) → s.executed.length ≤ i →
    r = s.rounds ∧ s.pc ≠ .head

variable {grow : Nat → Nat} {s : TaskLoop} {a : LoopAction}

theorem kept_start {before capacity : Nat} : Kept (start before capacity) where
  order := congrArg List.range List.length_replicate.symm
  inBounds := trivial
  recent i r hr _ := by
    rw [start] at hr
    have hnone := List.eq_of_mem_replicate (List.mem_of_getElem? hr)
    cases hnone

/-- Nothing of the history changes and no task gets in front of another. -/
theorem Kept.of_eq {t : TaskLoop} (h : Kept s) (horder : t.executed ++ t.rest = s.executed ++ s.rest)
    (hposted : t.posted = s.posted) (hinBounds : t.InBounds)
    (hlen : s.executed.length ≤ t.executed.length) (hrounds : t.rounds = s.rounds)
    (hpc : t.pc ≠ .head) : Kept t where
  order := by rw [horder, hposted, h.order]
  inBounds := hinBounds
  recent i r hr hi := by
    rw [hposted] at hr
    rw [hrounds]
    exact ⟨(h.recent i r hr (Nat.le_trans hlen hi)).1, hpc⟩

theorem length_le (h : Kept s) : s.executed.length ≤ s.posted.length := by
  have hlen := congrArg List.length h.order
  rw [List.length_append, List.length_range] at hlen
  omega

theorem next_post (grow : Nat → Nat) (hpc : s.pc = .dispatching) : ∃ capacity, (taskLoop grow).next s .post =
    { s with
      tasks := s.tasks ++ [s.posted.length]
      capacity := capacity
      posted := s.posted ++ [some s.rounds] } := by
  refine ⟨if s.tasks.length < s.capacity then s.capacity else grow s.capacity, ?_⟩
  simp only [taskLoop, pushBack]
  split
  · rfl
  · rw [hpc]

theorem kept_post (hpc : s.pc = .dispatching) (h : Kept s) :
    Kept ((taskLoop grow).next s .post) := by
  obtain ⟨capacity, hnext⟩ := next_post grow hpc
  have horder := h.order
  rw [rest, hpc] at horder
  rw [hnext]
  constructor
  · rw [rest]
    dsimp only
    rw [hpc, ← List.append_assoc, horder, List.length_append, List.length_singleton,
      List.range_succ]
  · rw [InBounds]
    dsimp only
    rw [hpc]
    trivial
  · intro i r hr hi
    refine ⟨?_, ?_⟩
    · rcases Nat.lt_or_ge i s.posted.length with hlt | hge
      · rw [List.getElem?_append_left hlt] at hr
        exact (h.recent i r hr hi).1
      · have hmem := List.mem_of_getElem? (List.getElem?_append_right hge ▸ hr)
        exact Option.some.inj (List.mem_singleton.1 hmem)
    · intro hc
      cases hpc.symm.trans hc

theorem kept_cleared (hpc : s.pc = .clearing) (h : Kept s) :
    Kept ((taskLoop grow).next s .cleared) := by
  have horder := h.order
  rw [rest, hpc, List.append_nil] at horder
  refine ⟨?_, trivial, fun i r hr hi => ?_⟩
  · show s.executed ++ [] = List.range s.posted.length
    rw [List.append_nil, horder]
  · -- all are executed
    have hlen : s.executed.length = s.posted.length := by rw [horder, List.length_range]
    have hr' : s.posted[i]? = some (some r) := hr
    rw [List.getElem?_eq_none (hlen ▸ hi)] at hr'
    cases hr'

theorem kept_next (ha : (taskLoop grow).enabled s a) (hpost : PostsOutside s a) (h : Kept s) :
    Kept ((taskLoop grow).next s a) := by
  have hbounds := h.inBounds
  rw [InBounds] at hbounds
  cases a with
  | wake =>
    have hpc : s.pc = .head := ha
    refine h.of_eq ?_ rfl trivial (Nat.le_refl _) rfl (fun hc => by cases hc)
    rw [rest, rest, hpc]
    rfl
  | interrupt =>
    have hpc : s.pc = .head := ha
    refine ⟨h.order, h.inBounds, fun i r hr hi => ?_⟩
    exact absurd hpc (h.recent i r hr hi).2
  | post => exact kept_post (hpost rfl) h
  | beginTasks =>
    have hpc : s.pc = .dispatching := ha
    refine h.of_eq ?_ rfl rfl (Nat.le_refl _) rfl (fun hc => by cases hc)
    rw [rest, rest, hpc]
    rfl
  | callTask =>
    obtain ⟨i, finish, hpc, hne⟩ := ha
    rw [hpc] at hbounds
    simp only [taskLoop, hpc]
    refine h.of_eq ?_ rfl hbounds ?_ rfl (fun hc => by cases hc)
    · rw [rest, rest, hpc]
      dsimp only
      rw [List.append_assoc, ← List.drop_eq_getElem?_toList_append]
    · rw [List.length_append]
      exact Nat.le_add_right _ _
  | taskReturns =>
    obtain ⟨i, finish, hpc⟩ := ha
    rw [hpc] at hbounds
    simp only [taskLoop, hpc]
    refine h.of_eq ?_ rfl hbounds (Nat.le_refl _) rfl (fun hc => by cases hc)
    rw [rest, rest, hpc]
  | endTasks =>
    obtain ⟨finish, hpc⟩ := ha
    rw [hpc] at hbounds
    refine h.of_eq ?_ rfl trivial (Nat.le_refl _) rfl (fun hc => by cases hc)
    rw [rest, rest, hpc]
    dsimp only
    rw [hbounds, List.drop_length]
    rfl
  | cleared => exact kept_cleared ha h
  | leave =>
    have hpc : s.pc = .head := ha
    refine h.of_eq ?_ rfl trivial (Nat.le_refl _) rfl (fun hc => by cases hc)
    rw [rest, rest, hpc]
    rfl

theorem Kept.runsOnce (h : Kept s) : RunsOnce s where
  order := by
    have htake := congrArg (List.take s.executed.length) h.order
    rw [List.take_left, List.take_range, Nat.min_eq_left (length_le h)] at htake
    exact htake
  posted := length_le h
  deadline i r hr hrounds := by
    refine Nat.lt_of_not_le fun hi => ?_
    have hround := (h.recent i r hr hi).1
    omega
  valid hpc := by
    have hbounds := h.inBounds
    rw [InBounds, hpc] at hbounds
    exact hbounds

/-- **Posted tasks are executed once**, in order and in time, in every run in which no task is posted
while the loop works the tasks off or clears them. -/
theorem runsOnce_of_steps {before capacity : Nat} {as : List LoopAction}
    (h : (taskLoop grow).Runs (start before capacity) as)
    (hP : (taskLoop grow).Steps PostsOutside (start before capacity) as) :
    RunsOnce ((taskLoop grow).exec (start before capacity) as) := by
  have hkept : Kept ((taskLoop grow).exec (start before capacity) as) :=
    h.invariant_of_steps (fun s a => kept_next) hP kept_start
  exact hkept.runsOnce

/-- What a full vector grows to in libstdc++. -/
def doubling (capacity : Nat) : Nat := max 1 (2 * capacity)

/-- A handler posts two tasks, and both are called. -/
def handlerPosts : List LoopAction :=
  [.wake, .post, .post, .beginTasks, .callTask, .taskReturns, .callTask, .taskReturns, .endTasks,
    .cleared]

theorem runs_handlerPosts : (taskLoop doubling).Runs (start 0 0) handlerPosts :=
  ⟨rfl, trivial, trivial, rfl, ⟨0, 2, rfl, by decide⟩, ⟨0, 2, rfl⟩, ⟨1, 2, rfl, by decide⟩, ⟨1, 2, rfl⟩,
    ⟨2, rfl⟩, rfl, trivial⟩

theorem runsOnce_of_steps_handlerPosts :
    RunsOnce ((taskLoop doubling).exec (start 0 0) handlerPosts) := by
  apply runsOnce_of_steps runs_handlerPosts
  simp [handlerPosts, Machine.Steps, PostsOutside, taskLoop, start, pushBack]

/-- In the next round a handler posts a task, which posts another one when it is called. -/
def taskPosts : List LoopAction :=
  handlerPosts ++ [.wake, .post, .beginTasks, .callTask, .post, .taskReturns, .endTasks, .cleared,
    .interrupt]

/-- There is room in the vector, so all that happens to the fourth task is that it is cleared. -/
theorem taskPosts_lost :
    ¬ ∀ grow before capacity as, (taskLoop grow).Runs (start before capacity) as →
      RunsOnce ((taskLoop grow).exec (start before capacity) as) := by
  intro h
  have hruns : (taskLoop doubling).Runs (start 0 0) taskPosts :=
    Machine.runs_append.2 ⟨runs_handlerPosts, rfl, trivial, rfl, ⟨0, 1, rfl, by decide⟩, trivial,
      ⟨0, 1, rfl⟩, ⟨1, rfl⟩, rfl, rfl, trivial⟩
  exact absurd ((h _ _ _ _ hruns).deadline 3 1 rfl (by decide)) (by decide)

end TaskLoop

end SNet.Tcp
