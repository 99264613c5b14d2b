import SNet.Pipe.Connection

/-!
# Data frames and sessions

The data frames that follow a handshake for a registered pipe belong to its session (`expected`). A
`PipeConnection` gives every frame that is neither a handshake nor a heartbeat to the session that
it was constructed with, and a connection that the listener created has none
(`data_through_null`). `reachesSession_iff` says when that comes to the same.
-/

namespace SNet.Pipe

variable {σ : Type*}

/-- What a connection is given in turn, and the registrations in between. -/
inductive Input (σ : Type*)
  | addSession (pipeId : List UInt8) (session : σ)
  | frame (f : PipeMsg)

/-- A call of `handle_message` and the frame that led to it. -/
structure Delivery (σ : Type*) where
  frame : PipeMsg
  session : Option σ
  body : List UInt8
  data : UInt64

def PipeEffect.delivery (f : PipeMsg) : PipeEffect σ → Option (Delivery σ)
  | .handleMessage session body data => some ⟨f, session, body, data⟩
  | .onReady _ | .handleEvent .. | .msend .. => none

/-- The calls of `handle_message`, in order. -/
def deliveries (o : ByteOrder) (c : PipeConnection σ) : PipeMap σ → List (Input σ) →
    List (Delivery σ)
  | _, [] => []
  | m, .addSession pipeId session :: is => deliveries o c (m.addSession pipeId session) is
  | m, .frame f :: is =>
    (c.handleData o m (f.bytes o)).filterMap (PipeEffect.delivery f) ++ deliveries o c m is

/-! ## The property and its condition -/

def PipeMsg.isData (f : PipeMsg) : Bool := f.head.type == pipeMsgData

/-- The registered session that a frame names in a handshake. -/
def PipeMsg.names (m : PipeMap σ) (f : PipeMsg) : Option σ :=
  if f.head.type = pipeMsgShakeHand ∧ 0 < f.head.length then m f.body else none

/-- The data frames behind a successful handshake, each with the session of the latest one. -/
def expected : Option σ → PipeMap σ → List (Input σ) → List (PipeMsg × σ)
  | _, _, [] => []
  | bound, m, .addSession pipeId session :: is => expected bound (m.addSession pipeId session) is
  | bound, m, .frame f :: is =>
    (if f.isData then (bound.map fun session => (f, session)).toList else []) ++
      expected ((f.names m).or bound) m is

/-- Each data frame behind a successful handshake reaches the session of that handshake, once and in
order, no other one reaches a session, and nothing is given to a session that is not there. -/
structure ReachesSession (o : ByteOrder) (c : PipeConnection σ) (m : PipeMap σ)
    (is : List (Input σ)) : Prop where
  delivered : (deliveries o c m is).filter (·.frame.isData) =
    (expected none m is).map fun p => ⟨p.1, some p.2, p.1.body, p.1.head.data⟩
  present : ∀ d ∈ deliveries o c m is, d.session ≠ none

/-- Data frames come behind a successful handshake only, of which the latest names the session that
the connection was constructed with; frames of unknown types come only if there is such a session. -/
def BoundToOwn (c : PipeConnection σ) : Option σ → PipeMap σ → List (Input σ) → Prop
  | _, _, [] => True
  | bound, m, .addSession pipeId session :: is => BoundToOwn c bound (m.addSession pipeId session) is
  | bound, m, .frame f :: is =>
    (f.isData → bound ≠ none ∧ bound = c.userSession) ∧
      (f.head.type ≠ pipeMsgShakeHand → f.head.type ≠ pipeMsgHeartBeat → c.userSession ≠ none) ∧
      BoundToOwn c ((f.names m).or bound) m is

/-! ## Deliveries -/

variable {o : ByteOrder} {c : PipeConnection σ} {m : PipeMap σ} {is : List (Input σ)} {f : PipeMsg}
  {bound : Option σ}

theorem filterMap_sendShakehand {es : List (PipeEffect σ)} {pipeId : List UInt8} :
    (es ++ [sendShakehand pipeId]).filterMap (PipeEffect.delivery f) =
      es.filterMap (PipeEffect.delivery f) := by
  rw [List.filterMap_append]
  exact List.append_nil _

theorem filterMap_handshake (h : f.head.type = pipeMsgShakeHand) :
    (c.handleMsg m f.head f.body).filterMap (PipeEffect.delivery f) = [] := by
  rw [PipeConnection.handleMsg, if_pos h]
  split
  · rw [PipeConnection.processServerHandshake]
    split
    · rw [filterMap_sendShakehand]
      cases m f.body with
      | none => rfl
      | some session => rfl
    · rfl
  · rw [PipeConnection.processClientHandshake]
    split
    · cases c.userSession with
      | none => rfl
      | some session => rfl
    · rfl

/-- Handshakes and heartbeats are not delivered; all else is, whatever the connection is bound to. -/
theorem deliveries_frame : deliveries o c m (.frame f :: is) =
    if f.head.type = pipeMsgShakeHand ∨ f.head.type = pipeMsgHeartBeat then deliveries o c m is
    else ⟨f, c.userSession, f.body, f.head.data⟩ :: deliveries o c m is := by
  rw [deliveries, PipeConnection.handleData_bytes]
  by_cases hshake : f.head.type = pipeMsgShakeHand
  · rw [if_pos (.inl hshake), filterMap_handshake hshake, List.nil_append]
  · by_cases hbeat : f.head.type = pipeMsgHeartBeat
    · rw [if_pos (.inr hbeat), PipeConnection.handleMsg, if_neg hshake, if_pos hbeat]
      split
      · rfl
      · rfl
    · rw [if_neg (not_or.2 ⟨hshake, hbeat⟩), PipeConnection.handleMsg, if_neg hshake, if_neg hbeat]
      rfl

theorem PipeMsg.isData_ne (h : f.isData) :
    f.head.type ≠ pipeMsgShakeHand ∧ f.head.type ≠ pipeMsgHeartBeat := by
  rw [PipeMsg.isData, beq_iff_eq] at h
  rw [h]
  decide

/-- The deliveries of data frames. -/
def dataDeliveries (o : ByteOrder) (c : PipeConnection σ) (m : PipeMap σ) (is : List (Input σ)) :
    List (Delivery σ) :=
  (deliveries o c m is).filter (·.frame.isData)

/-- A data frame is always delivered, to the session of the constructor. -/
theorem dataDeliveries_data (h : f.isData) : dataDeliveries o c m (.frame f :: is) =
    ⟨f, c.userSession, f.body, f.head.data⟩ :: dataDeliveries o c m is := by
  rw [dataDeliveries, deliveries_frame, if_neg (not_or.2 (f.isData_ne h))]
  exact List.filter_cons_of_pos h

theorem dataDeliveries_of_not_data (h : f.isData = false) :
    dataDeliveries o c m (.frame f :: is) = dataDeliveries o c m is := by
  rw [dataDeliveries, deliveries_frame]
  split
  · rfl
  · exact List.filter_cons_of_neg (Bool.eq_false_iff.1 h)

theorem expected_data (h : f.isData) : expected bound m (.frame f :: is) =
    (bound.map fun session => (f, session)).toList ++ expected ((f.names m).or bound) m is := by
  rw [expected, if_pos h]

theorem expected_of_not_data (h : f.isData = false) :
    expected bound m (.frame f :: is) = expected ((f.names m).or bound) m is := by
  rw [expected, h, if_neg Bool.false_ne_true, List.nil_append]

/-- Not more than the data frames is expected to be delivered. -/
theorem length_expected_le : (expected bound m is).length ≤ (dataDeliveries o c m is).length := by
  induction is generalizing bound m with
  | nil => exact Nat.le_refl 0
  | cons i is ih =>
    cases i with
    | addSession pipeId session => exact ih
    | frame f =>
      cases hdata : f.isData with
      | true =>
        rw [expected_data hdata, dataDeliveries_data hdata, List.length_append, List.length_cons,
          Nat.add_comm]
        exact Nat.add_le_add ih Option.length_toList_le
      | false =>
        rw [expected_of_not_data hdata, dataDeliveries_of_not_data hdata]
        exact ih

/-- What is delivered is what is expected, when the connection is bound to `bound`. -/
def Delivers (o : ByteOrder) (c : PipeConnection σ) (bound : Option σ) (m : PipeMap σ)
    (is : List (Input σ)) : Prop :=
  dataDeliveries o c m is =
    (expected bound m is).map fun p => ⟨p.1, some p.2, p.1.body, p.1.head.data⟩

theorem delivers_data (h : f.isData) : Delivers o c bound m (.frame f :: is) ↔
    (bound ≠ none ∧ bound = c.userSession) ∧ Delivers o c ((f.names m).or bound) m is := by
  rw [Delivers, dataDeliveries_data h, expected_data h]
  cases bound with
  | none =>
    refine iff_of_false (fun heq => ?_) fun h => h.1.1 rfl
    -- one frame more is delivered than may be
    have hlen := congrArg List.length heq
    have hle := @length_expected_le _ o c m is ((f.names m).or none)
    rw [Option.map_none, Option.toList_none, List.nil_append, List.length_map, List.length_cons]
      at hlen
    omega
  | some session =>
    rw [Option.map_some, Option.toList_some, List.singleton_append, List.map_cons, List.cons.injEq]
    refine and_congr_left fun _ => ⟨fun heq => ⟨by rintro ⟨⟩, ?_⟩, fun heq => ?_⟩
    · exact (congrArg Delivery.session heq).symm
    · rw [← heq.2]

theorem delivers_of_not_data (h : f.isData = false) : Delivers o c bound m (.frame f :: is) ↔
    Delivers o c ((f.names m).or bound) m is := by
  rw [Delivers, dataDeliveries_of_not_data h, expected_of_not_data h]
  exact Iff.rfl

theorem present_frame : (∀ d ∈ deliveries o c m (.frame f :: is), d.session ≠ none) ↔
    (f.head.type ≠ pipeMsgShakeHand → f.head.type ≠ pipeMsgHeartBeat → c.userSession ≠ none) ∧
      ∀ d ∈ deliveries o c m is, d.session ≠ none := by
  rw [deliveries_frame]
  split
  · next hother =>
    refine (and_iff_right fun hshake hbeat => ?_).symm
    exact absurd hother (not_or.2 ⟨hshake, hbeat⟩)
  · next hother =>
    rw [List.forall_mem_cons]
    refine and_congr_left fun _ => ⟨fun h _ _ => h, fun h => ?_⟩
    exact h (mt .inl hother) (mt .inr hother)

theorem delivers_iff : Delivers o c bound m is ∧ (∀ d ∈ deliveries o c m is, d.session ≠ none) ↔
    BoundToOwn c bound m is := by
  induction is generalizing bound m with
  | nil => exact iff_of_true ⟨rfl, List.forall_mem_nil _⟩ trivial
  | cons i is ih =>
    cases i with
    | addSession pipeId session => exact ih
    | frame f =>
      rw [BoundToOwn, ← ih, present_frame]
      cases hdata : f.isData with
      | true =>
        rw [delivers_data hdata]
        tauto
      | false =>
        rw [delivers_of_not_data hdata]
        tauto

/-- **Data reaches its session** exactly if every data frame comes behind a successful handshake for
the session that the connection was constructed with, and frames of unknown types come only if there
is one. -/
theorem reachesSession_iff : ReachesSession o c m is ↔ BoundToOwn c none m is := by
  rw [← delivers_iff (o := o)]
  exact ⟨fun h => ⟨h.delivered, h.present⟩, fun h => ⟨h.1, h.2⟩⟩

/-- The handshake for a pipe. -/
def shakehand : PipeMsg := ⟨⟨1, pipeMsgShakeHand, 0⟩, [7], rfl, Nat.le_of_ble_eq_true rfl⟩

/-- An empty data frame. -/
def emptyData : PipeMsg := ⟨⟨0, pipeMsgData, 0⟩, [], rfl, Nat.le_of_ble_eq_true rfl⟩

/-- A registered pipe, its handshake on an accepted connection, and data. -/
theorem data_through_null : ¬ ∀ (c : PipeConnection Nat) (m : PipeMap Nat) (is : List (Input Nat)),
    ReachesSession .little c m is := by
  intro h
  have hreaches := h ⟨true, none⟩ (fun _ => none)
    [.addSession [7] 0, .frame shakehand, .frame emptyData]
  exact hreaches.present ⟨emptyData, none, [], 0⟩ (.head _) rfl

end SNet.Pipe
