import SNet.Tcp.Registering

/-!
# Handlers outlive their registrations

Whoever is registered with epoll, or has an event in the rest of `waitEvents`, should be owned by a
`connection_map` or by a task. The timer of `enable_reconnect` breaks this: it registers a connection
in `CONN_CLOSED`, which nobody owns any more (`closed_handler_registered`). In the runs without that
it holds (`handlersOwned_of_steps`): `do_close` takes a connection out of the epoll set first, and
the task that removes it runs when the batch is done.
-/

namespace SNet.Tcp

namespace Process

/-! ## The property and its condition -/

/-- A raw pointer to the connection `n` is registered, or in the rest of `waitEvents`. -/
def Refers (s : Process) (n : Nat) : Prop :=
  ∃ w, (∃ sd, (s.workers w).epoll sd = some n) ∨ ∃ evts, (n, evts) ∈ (s.workers w).waitEvents

/-- A `connection_map` or a task that is still in `tasks` holds the connection `n`. -/
def Owns (s : Process) (n : Nat) : Prop :=
  (∃ f cid, s.connectionMap f cid = some n) ∨ ∃ w, n ∈ (s.workers w).tasks

/-- Handlers outlive their registrations. -/
def HandlersOwned (s : Process) : Prop := ∀ n, s.Refers n → s.Owns n

end Process

/-- A connection in `CONN_CLOSED` stays out of the epoll sets. -/
def LeavesClosed (s : Process) : ProcessAction → Prop
  | .step n a => ∀ h ∈ s.handlers[n]?, h.conn.connStatus = .connClosed → ¬ a.Revives h.conn
  | _ => True

instance LeavesClosed.decidable (s : Process) : ∀ a, Decidable (LeavesClosed s a)
  | .step n a => inferInstanceAs (Decidable (∀ h ∈ s.handlers[n]?, _ → ¬ a.Revives h.conn))
  | .create .. | .epollWait .. | .processEvent _ | .beginTasks _ | .runTask _ | .clearTasks _ =>
    inferInstanceAs (Decidable True)

/-! ## Runs -/

variable {a : Action} {h : Handler} {pc : WorkerPc} {sd : Int}

/-- What a worker and its connections have to do with each other. A connection that is closed while
an event of it is still to be processed is held by a task, and the tasks run when there is none. -/
structure EpollWorker.Serves (handlers : List Handler) (w : Nat) (wk : EpollWorker) : Prop where
  registered : ∀ sd n, wk.epoll sd = some n →
    ∃ h, handlers[n]? = some h ∧ h.tcpWorker = w ∧ h.Registrable sd
  waiting : ∀ n evts, (n, evts) ∈ wk.waitEvents → ∃ h, handlers[n]? = some h ∧ h.tcpWorker = w ∧
    h.conn.tcpWorker = true ∧ (h.conn.connStatus = .connClosed → n ∈ wk.tasks)
  posted : ∀ n ∈ wk.tasks,
    ∃ h, handlers[n]? = some h ∧ h.tcpWorker = w ∧ h.conn.connStatus = .connClosed
  processing : ∀ n pc, wk.pc = .processing n pc →
    ∃ h, handlers[n]? = some h ∧ h.conn.tcpWorker = true
  running : ∀ rest, wk.pc = .running rest → wk.waitEvents = [] ∧ ∀ n ∈ rest, n ∈ wk.tasks

/-- How the connections go with their factories and their workers. -/
structure Process.Safe (s : Process) : Prop where
  ids : ∀ (m n : Nat) (k h : Handler), s.handlers[m]? = some k → s.handlers[n]? = some h →
    k.factory = h.factory → k.connId = h.connId → m = n
  settled : ∀ (n : Nat) (h : Handler), s.handlers[n]? = some h → h.Settled
  mapped : ∀ (n : Nat) (h : Handler), s.handlers[n]? = some h → h.conn.connStatus ≠ .connClosed →
    s.connectionMap h.factory h.connId = some n
  entries : ∀ f cid n, s.connectionMap f cid = some n →
    ∃ h, s.handlers[n]? = some h ∧ h.factory = f ∧ h.connId = cid
  workers : ∀ w, (s.workers w).Serves s.handlers w

theorem Process.Safe.handlersOwned {s : Process} (hs : s.Safe) : s.HandlersOwned := by
  intro n hn
  rcases hn with ⟨w, ⟨sd, hsd⟩ | ⟨evts, he⟩⟩
  · obtain ⟨h, hget, -, hreg⟩ := (hs.workers w).registered sd n hsd
    exact .inl ⟨h.factory, h.connId, hs.mapped n h hget hreg.connStatus⟩
  · obtain ⟨h, hget, -, -, htask⟩ := (hs.workers w).waiting n evts he
    by_cases hclosed : h.conn.connStatus = .connClosed
    · exact .inr ⟨w, htask hclosed⟩
    · exact .inl ⟨h.factory, h.connId, hs.mapped n h hget hclosed⟩

/-- A connection that may be registered has its worker. -/
theorem Handler.Registrable.served (hr : h.Registrable sd) (hs : h.Settled) :
    h.conn.tcpWorker = true := by
  by_contra hw
  obtain ⟨hsd, hneed, -⟩ := hs.unborn (by simpa using hw)
  obtain ⟨hpos, heq⟩ := hr.connSd hneed
  omega

/-! ## The list of the connections -/

section

variable {handlers : List Handler} {h' k : Handler} {m n : Nat} {P : Handler → Prop}

theorem getElem?_concat_or (hk : (handlers ++ [h])[m]? = some k) :
    handlers[m]? = some k ∨ m = handlers.length ∧ k = h := by
  rcases Nat.lt_or_ge m handlers.length with hlt | hge
  · rw [List.getElem?_append_left hlt] at hk
    exact .inl hk
  · rw [List.getElem?_append_right hge, List.getElem?_singleton] at hk
    split at hk
    · exact .inr ⟨by omega, (Option.some.inj hk).symm⟩
    · cases hk

theorem exists_getElem?_concat (hex : ∃ k, handlers[m]? = some k ∧ P k) :
    ∃ k, (handlers ++ [h])[m]? = some k ∧ P k := by
  obtain ⟨k, hk, hPk⟩ := hex
  exact ⟨k, (List.getElem?_append_left (List.getElem?_eq_some_iff.1 hk).1).trans hk, hPk⟩

theorem exists_getElem?_set (hget : handlers[n]? = some h)
    (hP : m = n → P h → P h') (hex : ∃ k, handlers[m]? = some k ∧ P k) :
    ∃ k, (handlers.set n h')[m]? = some k ∧ P k := by
  obtain ⟨k, hk, hPk⟩ := hex
  by_cases hm : m = n
  · subst hm
    cases hget.symm.trans hk
    exact ⟨h', List.getElem?_set_self (List.getElem?_eq_some_iff.1 hk).1, hP rfl hPk⟩
  · exact ⟨k, (List.getElem?_set_ne fun heq => hm heq.symm).trans hk, hPk⟩

theorem getElem?_set_or (hk : (handlers.set n h')[m]? = some k) :
    m = n ∧ k = h' ∨ m ≠ n ∧ handlers[m]? = some k := by
  by_cases hm : m = n
  · subst hm
    refine .inl ⟨rfl, ?_⟩
    have hlt : m < handlers.length := by simpa using (List.getElem?_eq_some_iff.1 hk).1
    rw [List.getElem?_set_self hlt] at hk
    exact (Option.some.inj hk).symm
  · rw [List.getElem?_set_ne fun heq => hm heq.symm] at hk
    exact .inr ⟨hm, hk⟩

end

namespace Process

variable {p : Process} {w n m : Nat} {wk : EpollWorker}

/-- A step of a worker that changes neither the connections nor the maps. -/
theorem Safe.setWorker (hs : p.Safe) (hw : wk.Serves p.handlers w) :
    (p.setWorker w wk).Safe := by
  refine { hs with workers := fun v => ?_ }
  by_cases hv : v = w
  · subst hv
    show (Function.update p.workers v wk v).Serves p.handlers v
    rw [Function.update_self]
    exact hw
  · show (Function.update p.workers w wk v).Serves p.handlers v
    rw [Function.update_of_ne hv]
    exact hs.workers v

theorem Safe.epollWait {evs : List (Int × EpollEvents)} (hs : p.Safe) :
    (p.next (.epollWait w evs)).Safe := by
  have hw := hs.workers w
  refine hs.setWorker { hw with waiting := ?_, processing := ?_, running := ?_ }
  · intro n evts he
    obtain ⟨e, -, he⟩ := List.mem_filterMap.1 he
    obtain ⟨m, hm, heq⟩ := Option.map_eq_some_iff.1 he
    cases heq
    obtain ⟨h, hget, hwk, hreg⟩ := hw.registered e.1 n hm
    exact ⟨h, hget, hwk, hreg.served (hs.settled n h hget), fun hc => absurd hc hreg.connStatus⟩
  · rintro n pc ⟨⟩
  · rintro rest ⟨⟩

theorem Safe.processEvent (hs : p.Safe) : (p.next (.processEvent w)).Safe := by
  have hw := hs.workers w
  unfold next
  dsimp only
  split
  · exact hs
  · next n evts rest heq =>
    have hmem : ∀ e ∈ rest, e ∈ (p.workers w).waitEvents :=
      fun e he => heq ▸ List.mem_cons_of_mem _ he
    refine hs.setWorker { hw with waiting := ?_, processing := ?_, running := ?_ }
    · exact fun m evts' he => hw.waiting m evts' (hmem _ he)
    · intro m pc hpc
      cases hpc
      obtain ⟨h, hget, -, hserved, -⟩ := hw.waiting n evts (heq ▸ List.mem_cons_self)
      exact ⟨h, hget, hserved⟩
    · rintro rest' ⟨⟩

theorem Safe.beginTasks (hs : p.Safe) (he : (p.workers w).waitEvents = []) :
    (p.next (.beginTasks w)).Safe := by
  refine hs.setWorker { hs.workers w with processing := ?_, running := ?_ }
  · rintro n pc ⟨⟩
  · intro rest hrest
    cases hrest
    exact ⟨he, fun _ => id⟩

theorem Safe.clearTasks (hs : p.Safe) (hpc : (p.workers w).pc = .running []) :
    (p.next (.clearTasks w)).Safe := by
  have hw := hs.workers w
  refine hs.setWorker
    { hw with waiting := ?_, posted := List.forall_mem_nil _, processing := ?_, running := ?_ }
  · intro n evts he
    -- the whole batch was processed before the first task ran
    rw [show (p.workers w).waitEvents = [] from (hw.running [] hpc).1] at he
    cases he
  · rintro n pc ⟨⟩
  · rintro rest ⟨⟩

/-- `remove_connection` of a connection in `CONN_CLOSED` takes no other one out of the map. -/
theorem Safe.remove (hs : p.Safe) (hget : p.handlers[n]? = some h)
    (hclosed : h.conn.connStatus = .connClosed) :
    Safe { p with
      connectionMap := Function.update p.connectionMap h.factory
        (removeConnection (p.connectionMap h.factory) h.connId) } := by
  refine { hs with mapped := fun m k hk hopen => ?_, entries := fun f cid m hm => ?_ }
  · refine (Registry.update_update_of_ne fun hf hcid => ?_).trans (hs.mapped m k hk hopen)
    obtain rfl := hs.ids m n k h hk hget hf hcid
    cases hget.symm.trans hk
    exact hopen hclosed
  · rcases Registry.update_update_cases hm with ⟨-, -, hm⟩ | hm
    · cases hm
    · exact hs.entries f cid m hm

theorem Safe.runTask (hs : p.Safe) : (p.next (.runTask w)).Safe := by
  have hw := hs.workers w
  unfold next
  dsimp only
  split
  · exact hs
  · next n rest hrest =>
    have hpc : (p.workers w).pc = .running (n :: rest) := by
      unfold RunPc.rest at hrest
      split at hrest
      · next heq => rw [heq, hrest]
      · cases hrest
    obtain ⟨hempty, htasks⟩ := hw.running (n :: rest) hpc
    obtain ⟨h, hget, -, hclosed⟩ := hw.posted n (htasks n List.mem_cons_self)
    have hset : (p.setWorker w { p.workers w with pc := .running rest }).Safe := by
      refine hs.setWorker { hw with processing := ?_, running := ?_ }
      · rintro m pc ⟨⟩
      · intro rest' hrest'
        cases hrest'
        exact ⟨hempty, fun m hm => htasks m (List.mem_cons_of_mem n hm)⟩
    rw [hget]
    exact hset.remove hget hclosed

/-- A new connection is in no epoll set, no batch and no task. -/
theorem Safe.create {f : Nat} {cid : UInt64} {buf : Nat → UInt8} (hs : p.Safe)
    (hfresh : ∀ h ∈ p.handlers, h.factory = f → h.connId ≠ cid) :
    (p.next (.create f w cid buf)).Safe := by
  have hne : ∀ {m : Nat} {k : Handler}, p.handlers[m]? = some k → k.factory = f → k.connId ≠ cid :=
    fun hk => hfresh _ (List.mem_of_getElem? hk)
  refine ⟨fun m n k h hk hh hf hcid => ?_, fun m k hk => ?_, fun m k hk hopen => ?_,
    fun g id m hm => ?_, fun v => ?_⟩
  · rcases getElem?_concat_or hk with hk | ⟨rfl, rfl⟩
    · rcases getElem?_concat_or hh with hh | ⟨rfl, rfl⟩
      · exact hs.ids m n k h hk hh hf hcid
      · exact absurd hcid (hne hk hf)
    · rcases getElem?_concat_or hh with hh | ⟨rfl, rfl⟩
      · exact absurd hcid.symm (hne hh hf.symm)
      · rfl
  · rcases getElem?_concat_or hk with hk | ⟨-, rfl⟩
    · exact hs.settled m k hk
    · exact ⟨rfl, fun _ => ⟨rfl, rfl, by rintro ⟨⟩⟩, fun _ => rfl⟩
  · rcases getElem?_concat_or hk with hk | ⟨rfl, rfl⟩
    · exact (Registry.update_update_of_ne (hne hk)).trans (hs.mapped m k hk hopen)
    · exact Registry.update_update_apply.trans (if_pos ⟨rfl, rfl⟩)
  · rcases Registry.update_update_cases hm with ⟨rfl, rfl, heq⟩ | hm
    · cases heq
      exact ⟨_, List.getElem?_concat_length, rfl, rfl⟩
    · exact exists_getElem?_concat (hs.entries g id m hm)
  · have hw := hs.workers v
    exact
      { registered := fun sd m hm => exists_getElem?_concat (hw.registered sd m hm)
        waiting := fun m evts he => exists_getElem?_concat (hw.waiting m evts he)
        posted := fun m hm => exists_getElem?_concat (hw.posted m hm)
        processing := fun m pc hpc => exists_getElem?_concat (hw.processing m pc hpc)
        running := hw.running }

end Process

/-! ## A step of a connection in its process -/

section

variable {handlers : List Handler} {h' : Handler} {m n w : Nat} {wk : EpollWorker}
  {evs : List Event} {p : Process}

/-- A worker after a step of the connection `n`, its own or another one. -/
theorem EpollWorker.Serves.moves (hw : wk.Serves handlers w) (hget : handlers[n]? = some h)
    (hm : h.Moves h' evs) :
    (evs.foldl (observe (w == h.tcpWorker) n) wk).Serves (handlers.set n h') w := by
  have hself : (handlers.set n h')[n]? = some h' :=
    List.getElem?_set_self (List.getElem?_eq_some_iff.1 hget).1
  obtain ⟨hwait, hpc⟩ := @foldl_observe_frame (w == h.tcpWorker) n wk evs
  have htasks : ∀ m ∈ wk.tasks, m ∈ (evs.foldl (observe (w == h.tcpWorker) n) wk).tasks :=
    fun m hmem => mem_foldl_observe_tasks.2 (.inl hmem)
  refine ⟨fun sd m hsd => ?_, fun m evts he => ?_, fun m hmem => ?_, fun m pc heq => ?_,
    fun rest heq => ?_⟩
  · rcases foldl_observe_epoll hsd with ⟨hown, rfl, e, he, henters⟩ | ⟨hsd, hopen⟩
    · exact ⟨h', hself, hm.tcpWorker.trans (beq_iff_eq.1 hown).symm, hm.enters e he sd henters⟩
    · refine exists_getElem?_set hget (fun _ hreg => ?_) (hw.registered sd m hsd)
      refine ⟨hm.tcpWorker.trans hreg.1, (hm.keeps sd hreg.2).resolve_right ?_⟩
      rintro ⟨site, hclose⟩
      exact hopen site hclose
  · rw [hwait] at he
    obtain ⟨k, hk, hkw, hserved, htask⟩ := hw.waiting m evts he
    refine exists_getElem?_set hget (fun heq hP => ?_)
      ⟨k, hk, hkw, hserved, fun hc => htasks m (htask hc)⟩
    subst heq
    refine ⟨hm.tcpWorker.trans hP.1, hm.served hP.2.1, fun hclosed => ?_⟩
    rcases hm.closes hclosed with hold | hpost
    · exact hP.2.2 hold
    · exact mem_foldl_observe_tasks.2 (.inr ⟨beq_iff_eq.2 hP.1.symm, rfl, hpost⟩)
  · rcases mem_foldl_observe_tasks.1 hmem with hmem | ⟨hown, rfl, hpost⟩
    · exact exists_getElem?_set hget (fun _ hk => ⟨hm.tcpWorker.trans hk.1, hm.closed hk.2⟩)
        (hw.posted m hmem)
    · exact ⟨h', hself, hm.tcpWorker.trans (beq_iff_eq.1 hown).symm, hm.posts hpost⟩
  · exact exists_getElem?_set hget (fun _ => hm.served) (hw.processing m pc (hpc ▸ heq))
  · obtain ⟨hempty, hrest⟩ := hw.running rest (hpc ▸ heq)
    exact ⟨hwait.trans hempty, fun m hmem => htasks m (hrest m hmem)⟩

/-- A worker that goes on in `process_event`, or back to `waitEvents`. -/
theorem EpollWorker.Serves.setPc {pc : WorkerPc} (hw : wk.Serves handlers w)
    (hserved : pc ≠ .waiting → ∃ h, handlers[n]? = some h ∧ h.conn.tcpWorker = true) :
    ({ wk with pc := .at n pc } : EpollWorker).Serves handlers w := by
  refine { hw with processing := fun m pc' heq => ?_, running := fun rest heq => ?_ }
  · cases pc with
    | waiting => cases heq
    | _ =>
      cases heq
      exact hserved (by rintro ⟨⟩)
  · cases pc <;> cases heq

theorem RunPc.view_eq_some {r : RunPc} (hv : r.view n = some pc) :
    r = .dispatching ∧ pc = .waiting ∨ r = .processing n pc := by
  cases r with
  | dispatching =>
    cases hv
    exact .inl ⟨rfl, rfl⟩
  | processing m pc' =>
    simp only [RunPc.view] at hv
    split at hv
    · next heq =>
      cases hv
      exact .inr (heq ▸ rfl)
    · cases hv
  | polling | running => cases hv

/-- A worker calls the functions of a connection that has it, but for the timer. -/
theorem Process.Safe.served (hs : p.Safe) (hget : p.handlers[n]? = some h)
    (ha : Tcp.Enabled (p.view n h) a) (hv : ((p.workers h.tcpWorker).pc.view n).isSome)
    (hown : a.ofWorker) :
    h.conn.tcpWorker = true ∨ ∃ r, a = .timer r ∧ (p.view n h).worker = .waiting := by
  obtain ⟨pc, hpc⟩ := Option.isSome_iff_exists.1 hv
  have hview : (p.view n h).worker = pc := by rw [Process.view, hpc]; rfl
  rcases RunPc.view_eq_some hpc with ⟨-, rfl⟩ | hproc
  · cases a with
    | timer r => exact .inr ⟨r, rfl, hview⟩
    | onReady | error | finish => cases hview.symm.trans ha
    | read | write => cases hview.symm.trans ha.1
    | _ => cases hown
  · obtain ⟨k, hk, hserved⟩ := (hs.workers h.tcpWorker).processing n pc hproc
    cases hget.symm.trans hk
    exact .inl hserved

theorem Process.Safe.stepHandler (hs : p.Safe) (hget : p.handlers[n]? = some h)
    (ha : Tcp.Enabled (p.view n h) a)
    (hv : a.ofWorker → ((p.workers h.tcpWorker).pc.view n).isSome)
    (hc : h.conn.connStatus = .connClosed → ¬ a.Revives h.conn) :
    (p.stepHandler n h a).Safe := by
  have hm : h.Moves (h.after (Tcp.next (p.view n h) a)) (effect (p.view n h) a).2 := by
    refine Handler.moves (hs.settled n h hget) ha (fun ctl heq => ?_) hc
    subst heq
    rcases hs.served hget ha (hv rfl) rfl with hserved | ⟨r, heq, -⟩
    · exact hserved
    · cases heq
  have hself := List.getElem?_set_self (a := h.after (Tcp.next (p.view n h) a))
    (List.getElem?_eq_some_iff.1 hget).1
  refine ⟨fun i j k l hk hl hf hcid => ?_, fun m k hk => ?_, fun m k hk hopen => ?_,
    fun f cid m hmap => ?_, fun w => ?_⟩
  · rcases getElem?_set_or hk with ⟨rfl, rfl⟩ | ⟨-, hk'⟩
    · rcases getElem?_set_or hl with ⟨rfl, -⟩ | ⟨-, hl⟩
      · rfl
      · exact hs.ids _ j h l hget hl (hm.factory ▸ hf) (hm.connId ▸ hcid)
    · rcases getElem?_set_or hl with ⟨rfl, rfl⟩ | ⟨-, hl⟩
      · exact hs.ids i _ k h hk' hget (hf.trans hm.factory) (hcid.trans hm.connId)
      · exact hs.ids i j k l hk' hl hf hcid
  · rcases getElem?_set_or hk with ⟨rfl, rfl⟩ | ⟨-, hk⟩
    · exact hm.settled
    · exact hs.settled m k hk
  · rcases getElem?_set_or hk with ⟨rfl, rfl⟩ | ⟨-, hk⟩
    · exact hs.mapped m h hget fun hclosed => hopen (hm.closed hclosed)
    · exact hs.mapped m k hk hopen
  · refine exists_getElem?_set hget (fun _ hk => ?_) (hs.entries f cid m hmap)
    exact ⟨hm.factory.trans hk.1, hm.connId.trans hk.2⟩
  · have hworker := (hs.workers w).moves hget hm
    show EpollWorker.Serves _ w (if _ then _ else _)
    split
    · next hown =>
      refine hworker.setPc fun hne => ⟨_, hself, hm.served ?_⟩
      rcases hs.served hget ha (hv hown.2) hown.2 with hserved | ⟨r, rfl, hwait⟩
      · exact hserved
      · exact absurd hwait hne
    · exact hworker

end

namespace Process

variable {p : Process} {b : ProcessAction} {bs : List ProcessAction}

theorem safe_next (ha : p.Enabled b) (hc : LeavesClosed p b) (hs : p.Safe) :
    (p.next b).Safe := by
  cases b with
  | create f w cid buf => exact hs.create ha
  | step n a =>
    obtain ⟨h, hget, ha, hv⟩ := ha
    rw [next, hget]
    exact hs.stepHandler hget ha hv (hc h hget)
  | epollWait w evs => exact hs.epollWait
  | processEvent w => exact hs.processEvent
  | beginTasks w => exact hs.beginTasks ha.2
  | runTask w => exact hs.runTask
  | clearTasks w => exact hs.clearTasks ha

theorem safe_start : Safe {} where
  ids _ _ _ _ hk := by cases hk
  settled _ _ hk := by cases hk
  mapped _ _ hk := by cases hk
  entries _ _ _ hm := by cases hm
  workers w :=
    { registered := fun _ _ hsd => (by cases hsd)
      waiting := fun _ _ he => (by cases he)
      posted := fun _ hn => (by cases hn)
      processing := fun _ _ heq => (by cases heq)
      running := fun _ heq => (by cases heq) }

theorem safe_exec (h : machine.Runs {} bs) (hc : machine.Steps LeavesClosed {} bs) :
    (machine.exec {} bs).Safe :=
  h.invariant_of_steps (I := Safe) (fun _ _ ha hc hs => safe_next ha hc hs) hc safe_start

/-- **Handlers outlive their registrations** in every run in which no connection in `CONN_CLOSED`
gets back into an epoll set. -/
theorem handlersOwned_of_steps (h : machine.Runs {} bs) (hc : machine.Steps LeavesClosed {} bs) :
    (machine.exec {} bs).HandlersOwned := (safe_exec h hc).handlersOwned

/-- The worker `w` serves an event of the connection `n`, and comes to its tasks. -/
def serving (w n : Nat) (sd : Int) (evts : EpollEvents) : List ProcessAction :=
  [.epollWait w [(sd, evts)], .processEvent w, .step n (.onReady evts),
    .step n (.read evts handlePackage .again true), .step n (.write evts .again true),
    .step n (.error evts true), .step n (.finish true), .beginTasks w]

/-- An accepted connection is closed and removed. -/
def closedAndRemoved : List ProcessAction :=
  [.create 0 0 1025 (fun _ => 0), .step 0 (.accept 5 true), .step 0 (.close true)] ++
    serving 0 0 5 epollOut ++ [.runTask 0, .clearTasks 0]

/-- After it another connection is closed, and its timer connects again. -/
def closedAndReconnected : List ProcessAction :=
  closedAndRemoved ++ [.create 1 0 1026 (fun _ => 0),
    .step 1 (.connect true ⟨6, true, true, true⟩), .step 1 .enableReconnect,
    .step 1 (.close true)] ++ serving 0 1 6 epollOut ++
    [.clearTasks 0, .epollWait 0 [], .step 1 (.timer ⟨7, true, true, true⟩)]

theorem handlersOwned_of_steps_closedAndReconnected :
    (machine.exec {} closedAndReconnected).HandlersOwned :=
  handlersOwned_of_steps (by decide) (by decide)

/-! ### The timer of a closed connection -/

variable {h : Handler} {m n w : Nat} {a : Action} {r : ConnectAnswer}

/-- Who owns a connection is found with its factory and its worker. -/
theorem Safe.owns (hs : p.Safe) (hget : p.handlers[n]? = some h) (ho : p.Owns n) :
    p.connectionMap h.factory h.connId = some n ∨ n ∈ (p.workers h.tcpWorker).tasks := by
  rcases ho with ⟨f, cid, hm⟩ | ⟨w, hw⟩
  · obtain ⟨k, hk, rfl, rfl⟩ := hs.entries f cid n hm
    cases hget.symm.trans hk
    exact .inl hm
  · obtain ⟨k, hk, rfl, -⟩ := (hs.workers w).posted n hw
    cases hget.symm.trans hk
    exact .inr hw

theorem stepHandler_worker (p : Process) (n : Nat) (h : Handler) (a : Action) (w : Nat) :
    ∃ pc, (p.stepHandler n h a).workers w =
      { (effect (p.view n h) a).2.foldl (EpollWorker.observe (w == h.tcpWorker) n)
          (p.workers w) with pc } := by
  unfold stepHandler
  dsimp only
  split
  · exact ⟨_, rfl⟩
  · exact ⟨_, rfl⟩

/-- Only `do_close` finds a new owner for a connection. -/
theorem Owns.of_stepHandler (hf : ∀ ctl, a ≠ .finish ctl) (ho : (p.stepHandler n h a).Owns m) :
    p.Owns m := by
  refine ho.imp_right ?_
  rintro ⟨w, hw⟩
  obtain ⟨pc, heq⟩ := stepHandler_worker p n h a w
  rw [heq] at hw
  rcases EpollWorker.mem_foldl_observe_tasks.1 hw with hw | ⟨-, -, hpost⟩
  · exact ⟨w, hw⟩
  · obtain ⟨ctl, hctl⟩ := kind_shut hpost rfl
    exact absurd hctl (hf ctl)

/-- A timer that registers a connection which nobody owns leaves a dangling handler. -/
theorem Safe.not_handlersOwned (hs : p.Safe) (hget : p.handlers[n]? = some h)
    (hclosed : h.conn.connStatus = .connClosed)
    (hmap : p.connectionMap h.factory h.connId ≠ some n)
    (htask : n ∉ (p.workers h.tcpWorker).tasks) (hr : r.Registers) :
    ¬ (p.next (.step n (.timer r))).HandlersOwned := by
  have hopen : (p.view n h).conn.isOpen = false := by
    simp [view, TcpConnection.isOpen, hclosed]
  have heffect : ∃ evts, (effect (p.view n h) (.timer r)).2 =
      [.socket r.sd, .connect r.sd true, .epollCtl .add r.sd evts true] := by
    obtain ⟨hpos, hpton, hconn, hctl⟩ := hr
    refine ⟨(p.view n h).conn.epollEvents ||| epollOut, ?_⟩
    simp [effect, reconnectTimer, hopen, doConnect, addEvent, hpos, hpton, hconn, hctl]
  intro howned
  rw [next, hget] at howned
  have hrefers : (p.stepHandler n h (.timer r)).Refers n := by
    obtain ⟨pc, hworker⟩ := stepHandler_worker p n h (.timer r) h.tcpWorker
    obtain ⟨evts, heffect⟩ := heffect
    refine ⟨h.tcpWorker, .inl ⟨r.sd, ?_⟩⟩
    rw [hworker, heffect, beq_self_eq_true]
    exact Function.update_self ..
  rcases hs.owns hget (Owns.of_stepHandler (by rintro _ ⟨⟩) (howned n hrefers)) with h' | h'
  · exact hmap h'
  · exact htask h'

/-- `enable_reconnect` comes after the connection was closed and removed. -/
def closedAndEnabled : List ProcessAction :=
  closedAndRemoved ++ [.step 0 .enableReconnect, .epollWait 0 []]

/-- The timer of a connection that was closed and removed. -/
theorem closed_handler_registered : ¬ ∀ bs : List ProcessAction, machine.Runs {} bs →
    (machine.exec {} bs).HandlersOwned := by
  intro h
  have hs : (machine.exec {} closedAndEnabled).Safe := safe_exec (by decide) (by decide)
  have howned := h (closedAndEnabled ++ [.step 0 (.timer ⟨6, true, true, true⟩)]) (by decide)
  rw [Machine.exec, List.foldl_append] at howned
  obtain ⟨h₀, hget⟩ : ∃ h₀, (machine.exec {} closedAndEnabled).handlers[0]? = some h₀ :=
    Option.isSome_iff_exists.1 (by decide)
  have hfacts : ∀ h₀ ∈ (machine.exec {} closedAndEnabled).handlers[0]?,
      h₀.conn.connStatus = .connClosed ∧
      (machine.exec {} closedAndEnabled).connectionMap h₀.factory h₀.connId ≠ some 0 ∧
      0 ∉ ((machine.exec {} closedAndEnabled).workers h₀.tcpWorker).tasks := by decide +kernel
  obtain ⟨hclosed, hmap, htask⟩ := hfacts h₀ hget
  exact hs.not_handlersOwned hget hclosed hmap htask (by decide) howned

end Process

end SNet.Tcp
