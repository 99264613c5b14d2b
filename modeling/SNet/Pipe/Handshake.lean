import SNet.Library.Machine
import SNet.Pipe.Connection

/-!
# The handshake of two endpoints

A client that adds remote pipes and a server that adds local ones, with a link for every TCP session
between them. The server answers a handshake whether or not it knows the pipe, `add_local_pipe`
replaces a session that may be bound, and nothing resets `pipe_status` when a connection is lost:
each of these alone lets a client's session be bound to nothing (`bound_to_nothing` is a case of the
first). `agrees_of_steps` says that there is no fourth way.
-/

namespace SNet.Pipe

open Tcp

inductive PipeStatus
  | init
  | unbind
  | bind
  deriving DecidableEq, Repr

/-- A message as it is sent: its head and its body. -/
abbrev Frame := PipeMsgHead × List UInt8

/-- One TCP session between the connection of a client's pipe and one that the listener accepted. -/
structure Link where
  pipe : Nat := 0
  serverOpen : Bool := false
  toServer : List Frame := []
  toClient : List Frame := []
  /-- The client has received the answer to its handshake. -/
  completed : Bool := false

/-- `add_remote_pipe` makes one session and one connection, which go by one number. -/
structure Endpoints where
  pipes : Nat := 0
  pipeId : Nat → List UInt8 := fun _ => []
  clientMap : PipeMap Nat := fun _ => none
  /-- `pipe_status`, which `make_shared` sets to zero. -/
  clientStatus : Nat → PipeStatus := fun _ => .init
  /-- The link of a client's connection, from `EVT_CONNECT` to `EVT_DISCONNECT`. -/
  link : Nat → Option Nat := fun _ => none
  /-- A client's pipe had an `EVT_DISCONNECT` and has not completed a handshake since. -/
  lost : Nat → Bool := fun _ => false
  sessions : Nat := 0
  serverMap : PipeMap Nat := fun _ => none
  serverStatus : Nat → PipeStatus := fun _ => .init
  linkCount : Nat := 0
  links : Nat → Link := fun _ => {}

inductive EndpointAction
  | addRemotePipe (pipeId : List UInt8)
  | addLocalPipe (pipeId : List UInt8)
  | connect (n : Nat)
  /-- The application sends something other than a handshake. -/
  | sendToServer (n : Nat) (f : Frame)
  | sendToClient (l : Nat) (f : Frame)
  | serverReceive (l : Nat)
  | clientReceive (n : Nat)
  | clientDisconnect (n : Nat)
  | serverDisconnect (l : Nat)

/-- The frames that are sent. -/
def sentFrames (es : List (PipeEffect Nat)) : List Frame :=
  es.filterMap fun | .msend head body => some (head, body) | _ => none

/-- `on_ready` sets the status of its session. -/
def readied (es : List (PipeEffect Nat)) (status : Nat → PipeStatus) : Nat → PipeStatus :=
  fun m => if .onReady m ∈ es then .bind else status m

/-- The connection of a client's pipe. -/
def clientConnection (n : Nat) : PipeConnection Nat := ⟨false, some n⟩

/-- A connection that the listener created. -/
def serverConnection : PipeConnection Nat := ⟨true, none⟩

def Endpoints.setLink (s : Endpoints) (l : Nat) (x : Link) : Endpoints :=
  { s with links := Function.update s.links l x }

def endpoints : Machine Endpoints EndpointAction where
  enabled s
    | .addRemotePipe _ | .addLocalPipe _ => True
    | .connect n => n < s.pipes ∧ s.link n = none
    | .sendToServer n f => (s.link n).isSome ∧ f.1.type ≠ pipeMsgShakeHand
    | .sendToClient l f => (s.links l).serverOpen = true ∧ f.1.type ≠ pipeMsgShakeHand
    | .serverReceive l => (s.links l).serverOpen = true ∧ (s.links l).toServer ≠ []
    | .clientReceive n => ∃ l ∈ s.link n, (s.links l).toClient ≠ []
    | .clientDisconnect n => (s.link n).isSome = true
    | .serverDisconnect l => (s.links l).serverOpen = true
  next s
    | .addRemotePipe pipeId =>
      { s with
        pipes := s.pipes + 1
        pipeId := Function.update s.pipeId s.pipes pipeId
        clientMap := s.clientMap.addSession pipeId s.pipes }
    | .addLocalPipe pipeId =>
      { s with sessions := s.sessions + 1, serverMap := s.serverMap.addSession pipeId s.sessions }
    | .connect n =>
      { s.setLink s.linkCount
          { pipe := n
            serverOpen := true
            toServer := sentFrames ((clientConnection n).handleEvent s.pipeId .evtConnect) } with
        link := Function.update s.link n (some s.linkCount), linkCount := s.linkCount + 1 }
    | .sendToServer n f =>
      match s.link n with
      | none => s
      | some l => s.setLink l { s.links l with toServer := (s.links l).toServer ++ [f] }
    | .sendToClient l f => s.setLink l { s.links l with toClient := (s.links l).toClient ++ [f] }
    | .serverReceive l =>
      match (s.links l).toServer with
      | [] => s
      | f :: rest =>
        let es := serverConnection.handleMsg s.serverMap f.1 f.2
        { s.setLink l
            { s.links l with
              toServer := rest, toClient := (s.links l).toClient ++ sentFrames es } with
          serverStatus := readied es s.serverStatus }
    | .clientReceive n =>
      match s.link n with
      | none => s
      | some l =>
        match (s.links l).toClient with
        | [] => s
        | f :: rest =>
          let es := (clientConnection n).handleMsg s.clientMap f.1 f.2
          { s.setLink l
              { s.links l with
                toClient := rest
                toServer := (s.links l).toServer ++ sentFrames es
                completed := (s.links l).completed || decide (.onReady n ∈ es) } with
            clientStatus := readied es s.clientStatus
            lost := fun m => s.lost m && decide (.onReady m ∉ es) }
    | .clientDisconnect n =>
      match s.link n with
      | none => s
      | some l =>
        { s.setLink l { s.links l with toClient := [] } with
          link := Function.update s.link n none, lost := Function.update s.lost n true }
    | .serverDisconnect l =>
      s.setLink l { s.links l with serverOpen := false, toServer := [] }

instance endpoints.decidableEnabled (s : Endpoints) : ∀ a, Decidable (endpoints.enabled s a)
  | .addRemotePipe _ | .addLocalPipe _ => inferInstanceAs (Decidable True)
  | .connect _ | .sendToServer .. | .sendToClient .. | .serverReceive _ =>
    inferInstanceAs (Decidable (_ ∧ _))
  | .clientReceive _ => inferInstanceAs (Decidable (∃ l ∈ _, _))
  | .clientDisconnect _ | .serverDisconnect _ => inferInstanceAs (Decidable (_ = _))

/-! ## The property and its condition -/

/-- A client's bound session has a bound partner and a connection that completed the handshake, and a
session whose connection was lost is not bound until the next handshake is completed. -/
structure Agrees (s : Endpoints) : Prop where
  partner : ∀ n, s.clientStatus n = .bind →
    ∃ m, s.serverMap (s.pipeId n) = some m ∧ s.serverStatus m = .bind
  connection : ∀ n, s.clientStatus n = .bind → ∃ l, s.link n = some l ∧ (s.links l).completed = true
  lost : ∀ n, s.lost n = true → s.clientStatus n ≠ .bind

def Frame.isShakehand (f : Frame) : Bool := f.1.type == pipeMsgShakeHand

/-- The client of this pipe is bound, or the answer to its handshake is on the way. -/
def Endpoints.Relies (s : Endpoints) (n : Nat) : Prop :=
  s.clientStatus n = .bind ∨ ∃ l ∈ s.link n, ∃ f ∈ (s.links l).toClient, f.isShakehand = true

instance Endpoints.decidableRelies (s : Endpoints) (n : Nat) : Decidable (s.Relies n) :=
  inferInstanceAs (Decidable (_ ∨ _))

/-- A handshake on a link whose client is there comes to a server that knows the pipe, no session is
replaced on which a client relies, and no connection of a bound session is lost. -/
def KeepsPartners (s : Endpoints) : EndpointAction → Prop
  | .serverReceive l =>
    ∀ f ∈ (s.links l).toServer.head?, f.isShakehand = true → 0 < f.1.length →
      s.link (s.links l).pipe = some l → (s.serverMap f.2).isSome
  | .addLocalPipe pipeId => ∀ n < s.pipes, s.pipeId n = pipeId → ¬ s.Relies n
  | .clientDisconnect n => s.clientStatus n ≠ .bind
  | _ => True

instance KeepsPartners.decidable (s : Endpoints) : ∀ a, Decidable (KeepsPartners s a)
  | .serverReceive _ => inferInstanceAs (Decidable (∀ f ∈ _, _))
  | .addLocalPipe _ => inferInstanceAs (Decidable (∀ n < _, _))
  | .clientDisconnect _ => inferInstanceAs (Decidable (_ ≠ _))
  | .addRemotePipe _ | .connect _ | .sendToServer .. | .sendToClient .. | .clientReceive _
  | .serverDisconnect _ => inferInstanceAs (Decidable True)

/-! ## What the endpoints do with a frame -/

variable {s : Endpoints} {a : EndpointAction} {as : List EndpointAction} {f g : Frame} {n m l : Nat}
  {map : PipeMap Nat} {es : List (PipeEffect Nat)} {status : Nat → PipeStatus}

theorem mem_sentFrames : f ∈ sentFrames es ↔ .msend f.1 f.2 ∈ es := by
  rw [sentFrames, List.mem_filterMap]
  constructor
  · rintro ⟨e, he, hf⟩
    cases e with
    | msend head body =>
      cases hf
      exact he
    | _ => cases hf
  · exact fun h => ⟨_, h, rfl⟩

theorem readied_of_mem (h : .onReady m ∈ es) : readied es status m = .bind := if_pos h

theorem readied_of_notMem (h : .onReady m ∉ es) : readied es status m = status m := if_neg h

theorem readied_eq_bind (h : readied es status m = .bind) : .onReady m ∈ es ∨ status m = .bind := by
  by_cases hm : .onReady m ∈ es
  · exact .inl hm
  · exact .inr ((readied_of_notMem hm).symm.trans h)

theorem readied_bind (h : status m = .bind) : readied es status m = .bind := by
  rw [readied, h, ite_self]

/-- The server answers a handshake with its pipe id, and readies the session of a known pipe. -/
theorem serverConnection_handleMsg (hg : g ∈ sentFrames (serverConnection.handleMsg map f.1 f.2))
    (hshake : g.isShakehand = true) : g.2 = f.2 ∧ f.isShakehand = true ∧ 0 < f.1.length ∧
      ∀ m, map f.2 = some m → .onReady m ∈ serverConnection.handleMsg map f.1 f.2 := by
  obtain ⟨head, body⟩ := g
  rw [mem_sentFrames] at hg
  by_cases htype : f.1.type = pipeMsgShakeHand
  · have hes : serverConnection.handleMsg map f.1 f.2 =
        PipeConnection.processServerHandshake map f.1 f.2 := if_pos htype
    rw [hes, PipeConnection.processServerHandshake] at hg ⊢
    split at hg
    · next hlen =>
      rw [if_pos hlen]
      rcases List.mem_append.1 hg with hg | hg
      · split at hg
        · simp at hg
        · cases hg
      · cases List.mem_singleton.1 hg
        refine ⟨rfl, beq_iff_eq.2 htype, hlen, fun m hm => ?_⟩
        rw [hm]
        exact .head _
    · cases hg
  · have hes : serverConnection.handleMsg map f.1 f.2 =
        if f.1.type = pipeMsgHeartBeat then [sendHeartbeat []]
        else [.handleMessage none f.2 f.1.data] := if_neg htype
    rw [hes] at hg
    split at hg
    · cases List.mem_singleton.1 hg
      cases hshake
    · cases List.mem_singleton.1 hg

/-- A client's connection answers nothing and readies its own session only. -/
theorem clientConnection_handleMsg :
    sentFrames ((clientConnection n).handleMsg map f.1 f.2) = [] ∧
      ∀ m, .onReady m ∈ (clientConnection n).handleMsg map f.1 f.2 → m = n ∧ f.isShakehand = true := by
  by_cases htype : f.1.type = pipeMsgShakeHand
  · have hes : (clientConnection n).handleMsg map f.1 f.2 =
        if 0 < f.1.length then [.onReady n] else [] := if_pos htype
    rw [hes]
    split
    · refine ⟨rfl, fun m hm => ?_⟩
      cases List.mem_singleton.1 hm
      exact ⟨rfl, beq_iff_eq.2 htype⟩
    · exact ⟨rfl, by rintro m ⟨⟩⟩
  · have hes : (clientConnection n).handleMsg map f.1 f.2 =
        if f.1.type = pipeMsgHeartBeat then [] else [.handleMessage (some n) f.2 f.1.data] :=
      if_neg htype
    rw [hes]
    split
    · exact ⟨rfl, by rintro m ⟨⟩⟩
    · refine ⟨rfl, fun m hm => ?_⟩
      cases List.mem_singleton.1 hm

/-! ## Runs -/

/-- The client relies on a bound session of the server. -/
def Endpoints.Partnered (s : Endpoints) (n : Nat) : Prop :=
  ∃ m, s.serverMap (s.pipeId n) = some m ∧ s.serverStatus m = .bind

/-- How pipes, links and handshakes go together. -/
structure Paired (s : Endpoints) : Prop where
  pipes : ∀ n, s.pipes ≤ n → s.link n = none ∧ s.clientStatus n ≠ .bind
  link : ∀ n l, s.link n = some l → (s.links l).pipe = n ∧ l < s.linkCount
  known : ∀ l < s.linkCount, (s.links l).pipe < s.pipes
  fresh : ∀ l, s.linkCount ≤ l → s.links l = {}
  shakehand : ∀ l f, f ∈ (s.links l).toServer ∨ f ∈ (s.links l).toClient → f.isShakehand = true →
    f.2 = s.pipeId (s.links l).pipe
  relies : ∀ n, s.Relies n → s.Partnered n
  connection : ∀ n, s.clientStatus n = .bind → ∃ l, s.link n = some l ∧ (s.links l).completed = true
  lost : ∀ n, s.lost n = true → s.clientStatus n ≠ .bind

theorem Paired.lt_of_link (h : Paired s) (hl : s.link n = some l) : n < s.pipes := by
  by_contra hn
  rw [(h.pipes n (Nat.not_lt.1 hn)).1] at hl
  cases hl

theorem Paired.lt_of_relies (h : Paired s) (hn : s.Relies n) : n < s.pipes := by
  rcases hn with hn | ⟨l, hl, -⟩
  · by_contra hge
    exact (h.pipes n (Nat.not_lt.1 hge)).2 hn
  · exact h.lt_of_link hl

theorem Paired.lt_of_frame (h : Paired s) (hf : f ∈ (s.links l).toServer ∨ f ∈ (s.links l).toClient) :
    l < s.linkCount := by
  by_contra hl
  rw [h.fresh l (Nat.not_lt.1 hl)] at hf
  rcases hf with hf | hf
  · cases hf
  · cases hf

/-- What holds of the new link and of the old ones holds after the change. -/
theorem links_setLink {P : Link → Prop} {x : Link} (l' : Nat) (hx : l' = l → P x)
    (hold : l' ≠ l → P (s.links l')) : P ((s.setLink l x).links l') := by
  show P (Function.update s.links l x l')
  by_cases hl : l' = l
  · subst hl
    rw [Function.update_self]
    exact hx rfl
  · rw [Function.update_of_ne hl]
    exact hold hl

/-- A link may change as long as its frames stay true and a client that comes to rely on it has a
partner. -/
theorem Paired.setLink {x : Link} (h : Paired s) (hl : l < s.linkCount)
    (hpipe : x.pipe = (s.links l).pipe) (hcompleted : (s.links l).completed = true → x.completed = true)
    (hframes : ∀ f, f ∈ x.toServer ∨ f ∈ x.toClient → f.isShakehand = true →
      f.2 = s.pipeId (s.links l).pipe)
    (hrelies : ∀ n, s.link n = some l → (∃ f ∈ x.toClient, f.isShakehand = true) → s.Partnered n) :
    Paired (s.setLink l x) := by
  have hpipes : ∀ l', ((s.setLink l x).links l').pipe = (s.links l').pipe := fun l' =>
    links_setLink (P := fun y => y.pipe = (s.links l').pipe) l' (fun hl' => hl' ▸ hpipe) fun _ => rfl
  refine ⟨h.pipes, fun n l' hn => ?_, fun l' hl' => ?_, fun l' hl' => ?_, fun l' => ?_,
    fun n hn => ?_, fun n hn => ?_, h.lost⟩
  · rw [hpipes l']
    exact h.link n l' hn
  · rw [hpipes l']
    exact h.known l' hl'
  · refine links_setLink (P := fun y => y = {}) l' (fun heq => ?_) fun _ => h.fresh l' hl'
    exact absurd (heq ▸ hl) (Nat.not_lt.2 hl')
  · rw [hpipes l']
    refine links_setLink (P := fun y => ∀ f, f ∈ y.toServer ∨ f ∈ y.toClient →
      f.isShakehand = true → f.2 = s.pipeId (s.links l').pipe) l' ?_ fun _ => h.shakehand l'
    rintro rfl
    exact hframes
  · rcases hn with hn | ⟨l', hl', hanswer⟩
    · exact h.relies n (.inl hn)
    · revert hanswer
      refine links_setLink (P := fun y => (∃ f ∈ y.toClient, f.isShakehand = true) →
        s.Partnered n) l' ?_ fun _ hanswer => h.relies n (.inr ⟨l', hl', hanswer⟩)
      rintro rfl
      exact hrelies n hl'
  · obtain ⟨l', hlink, hdone⟩ := h.connection n hn
    refine ⟨l', hlink, links_setLink (P := fun y => y.completed = true) l' ?_ fun _ => hdone⟩
    rintro rfl
    exact hcompleted hdone

/-- Sessions of the server only ever become bound. -/
theorem Paired.serverStatus (h : Paired s) :
    Paired { s with serverStatus := readied es s.serverStatus } := by
  refine { h with relies := fun n hn => ?_ }
  obtain ⟨m, hm, hbind⟩ := h.relies n hn
  exact ⟨m, hm, readied_bind hbind⟩

/-- Sessions that become bound have a partner and a connection that completed the handshake. -/
theorem Paired.clientStatus (h : Paired s) (hready : ∀ n, .onReady n ∈ es →
      s.Partnered n ∧ ∃ l, s.link n = some l ∧ (s.links l).completed = true) :
    Paired { s with
      clientStatus := readied es s.clientStatus
      lost := fun n => s.lost n && decide (.onReady n ∉ es) } := by
  refine
    { h with
      pipes := fun n hn => ⟨(h.pipes n hn).1, fun hbind => ?_⟩
      relies := ?_
      connection := fun n hbind => ?_
      lost := fun n hlost hbind => ?_ }
  · rcases readied_eq_bind hbind with hmem | hbind
    · obtain ⟨-, l, hl, -⟩ := hready n hmem
      exact absurd (h.lt_of_link hl) (Nat.not_lt.2 hn)
    · exact (h.pipes n hn).2 hbind
  · rintro n (hbind | hanswer)
    · rcases readied_eq_bind hbind with hmem | hbind
      · exact (hready n hmem).1
      · exact h.relies n (.inl hbind)
    · exact h.relies n (.inr hanswer)
  · rcases readied_eq_bind hbind with hmem | hbind
    · exact (hready n hmem).2
    · exact h.connection n hbind
  · rw [Bool.and_eq_true, decide_eq_true_eq] at hlost
    exact h.lost n hlost.1 ((readied_of_notMem hlost.2).symm.trans hbind)

theorem Paired.addRemotePipe {pipeId : List UInt8} (h : Paired s) :
    Paired (endpoints.next s (.addRemotePipe pipeId)) := by
  have hid : ∀ n < s.pipes, Function.update s.pipeId s.pipes pipeId n = s.pipeId n :=
    fun n hn => Function.update_of_ne hn.ne ..
  refine
    { h with
      pipes := fun n hn => h.pipes n (Nat.le_of_succ_le hn)
      known := fun l hl => Nat.lt_succ_of_lt (h.known l hl)
      shakehand := fun l f hf hshake => ?_
      relies := fun n hn => ?_ }
  · have hpipe := h.known l (h.lt_of_frame hf)
    exact (h.shakehand l f hf hshake).trans (hid _ hpipe).symm
  · obtain ⟨m, hm, hbind⟩ := h.relies n hn
    exact ⟨m, (congrArg s.serverMap (hid n (h.lt_of_relies hn))).trans hm, hbind⟩

theorem Paired.addLocalPipe {pipeId : List UInt8} (h : Paired s)
    (hc : KeepsPartners s (.addLocalPipe pipeId)) :
    Paired (endpoints.next s (.addLocalPipe pipeId)) := by
  refine { h with relies := fun n hn => ?_ }
  obtain ⟨m, hm, hbind⟩ := h.relies n hn
  refine ⟨m, ?_, hbind⟩
  have hne : s.pipeId n ≠ pipeId := fun heq => hc n (h.lt_of_relies hn) heq hn
  exact (Function.update_of_ne hne ..).trans hm

theorem Paired.newLink {x : Link} (h : Paired s) (hpipe : x.pipe < s.pipes)
    (hframes : ∀ f, f ∈ x.toServer ∨ f ∈ x.toClient → f.isShakehand = true →
      f.2 = s.pipeId x.pipe) :
    Paired { s.setLink s.linkCount x with linkCount := s.linkCount + 1 } := by
  have hold : ∀ l, l ≠ s.linkCount → (s.setLink s.linkCount x).links l = s.links l :=
    fun l hl => Function.update_of_ne hl ..
  refine ⟨h.pipes, fun n l hl => ?_, fun l hl => ?_, fun l hl => ?_, fun l => ?_, fun n hn => ?_,
    fun n hn => ?_, h.lost⟩
  · obtain ⟨hpipe, hlt⟩ := h.link n l hl
    exact ⟨(congrArg Link.pipe (hold l hlt.ne)).trans hpipe, Nat.lt_succ_of_lt hlt⟩
  · refine links_setLink (P := fun y => y.pipe < s.pipes) l (fun _ => hpipe) fun hne => ?_
    exact h.known l (Nat.lt_of_le_of_ne (Nat.le_of_lt_succ hl) hne)
  · have hgt : s.linkCount < l := hl
    exact (hold l hgt.ne').trans (h.fresh l hgt.le)
  · exact links_setLink (P := fun y => ∀ f, f ∈ y.toServer ∨ f ∈ y.toClient →
      f.isShakehand = true → f.2 = s.pipeId y.pipe) l (fun _ => hframes) fun _ => h.shakehand l
  · refine h.relies n (hn.imp_right ?_)
    rintro ⟨l, hl, hanswer⟩
    have hsame := congrArg Link.toClient (hold l (h.link n l hl).2.ne)
    exact ⟨l, hl, hsame ▸ hanswer⟩
  · obtain ⟨l, hl, hdone⟩ := h.connection n hn
    exact ⟨l, hl, (congrArg Link.completed (hold l (h.link n l hl).2.ne)).trans hdone⟩

/-- A client without a connection may get one that has brought no answer yet. -/
theorem Paired.setClientLink (h : Paired s) (hn : n < s.pipes) (hnone : s.link n = none)
    (hl : l < s.linkCount) (hpipe : (s.links l).pipe = n) (hempty : (s.links l).toClient = []) :
    Paired { s with link := Function.update s.link n (some l) } := by
  refine
    { h with
      pipes := fun m hm => ⟨?_, (h.pipes m hm).2⟩
      link := fun m l' hm => ?_
      relies := fun m hm => ?_
      connection := fun m hm => ?_ }
  · have hmn : m ≠ n := by
      rintro rfl
      exact absurd hn (Nat.not_lt.2 hm)
    exact (Function.update_of_ne hmn ..).trans (h.pipes m hm).1
  · by_cases hmn : m = n
    · subst hmn
      cases (Function.update_self ..).symm.trans hm
      exact ⟨hpipe, hl⟩
    · exact h.link m l' ((Function.update_of_ne hmn ..).symm.trans hm)
  · rcases hm with hm | ⟨l', hl', f, hf, hshake⟩
    · exact h.relies m (.inl hm)
    · by_cases hmn : m = n
      · subst hmn
        cases (Function.update_self ..).symm.trans hl'
        rw [hempty] at hf
        cases hf
      · exact h.relies m (.inr ⟨l', (Function.update_of_ne hmn ..).symm.trans hl', f, hf, hshake⟩)
  · obtain ⟨l', hl', hdone⟩ := h.connection m hm
    have hmn : m ≠ n := by
      rintro rfl
      cases hnone.symm.trans hl'
    exact ⟨l', (Function.update_of_ne hmn ..).trans hl', hdone⟩

/-- A client whose session is not bound may lose its connection. -/
theorem Paired.unsetClientLink (h : Paired s) (hbind : s.clientStatus n ≠ .bind) :
    Paired { s with
      link := Function.update s.link n none, lost := Function.update s.lost n true } := by
  have hother : ∀ m l, Function.update s.link n none m = some l → s.link m = some l := by
    intro m l hm
    by_cases hmn : m = n
    · subst hmn
      cases (Function.update_self ..).symm.trans hm
    · exact (Function.update_of_ne hmn ..).symm.trans hm
  refine
    { h with
      pipes := fun m hm => ⟨?_, (h.pipes m hm).2⟩
      link := fun m l hm => h.link m l (hother m l hm)
      relies := fun m hm => h.relies m (hm.imp_right ?_)
      connection := fun m hm => ?_
      lost := fun m hlost => ?_ }
  · by_cases hmn : m = n
    · subst hmn
      exact Function.update_self ..
    · exact (Function.update_of_ne hmn ..).trans (h.pipes m hm).1
  · rintro ⟨l, hl, hanswer⟩
    exact ⟨l, hother m l hl, hanswer⟩
  · have hmn : m ≠ n := by
      rintro rfl
      exact hbind hm
    obtain ⟨l, hl, hdone⟩ := h.connection m hm
    exact ⟨l, (Function.update_of_ne hmn ..).trans hl, hdone⟩
  · by_cases hmn : m = n
    · subst hmn
      exact hbind
    · exact h.lost m ((Function.update_of_ne hmn ..).symm.trans hlost)

theorem Paired.connect (h : Paired s) (ha : endpoints.enabled s (.connect n)) :
    Paired (endpoints.next s (.connect n)) := by
  obtain ⟨hn, hnone⟩ := ha
  have hnew := h.newLink (x :=
    { pipe := n
      serverOpen := true
      toServer := sentFrames ((clientConnection n).handleEvent s.pipeId .evtConnect) }) hn ?_
  · refine hnew.setClientLink hn hnone (Nat.lt_succ_self _) ?_ ?_
    · exact links_setLink (P := fun y => y.pipe = n) _ (fun _ => rfl) fun hne => absurd rfl hne
    · exact links_setLink (P := fun y => y.toClient = []) _ (fun _ => rfl) fun hne => absurd rfl hne
  · rintro f (hf | hf) -
    · cases List.mem_singleton.1 hf
      rfl
    · cases hf

/-- A client that comes to rely on an answer has a partner, as the server has just readied it. -/
theorem Paired.serverReceive (h : Paired s) (hc : KeepsPartners s (.serverReceive l)) :
    Paired (endpoints.next s (.serverReceive l)) := by
  cases hto : (s.links l).toServer with
  | nil =>
    have hnext : endpoints.next s (.serverReceive l) = s := by simp only [endpoints, hto]
    rw [hnext]
    exact h
  | cons f rest =>
    obtain ⟨es, hes⟩ : ∃ es, es = serverConnection.handleMsg s.serverMap f.1 f.2 := ⟨_, rfl⟩
    have hspec := @serverConnection_handleMsg f
    have hnext : endpoints.next s (.serverReceive l) =
        { s.setLink l
            { s.links l with
              toServer := rest, toClient := (s.links l).toClient ++ sentFrames es } with
          serverStatus := readied es s.serverStatus } := by
      simp only [endpoints, hto, hes]
    have hmem : f ∈ (s.links l).toServer := hto ▸ .head _
    rw [hnext]
    refine h.serverStatus.setLink (h.lt_of_frame (.inl hmem)) rfl id ?_ ?_
    · rintro g (hg | hg) hshake
      · exact h.shakehand l g (.inl (hto ▸ .tail _ hg)) hshake
      · rcases List.mem_append.1 hg with hg | hg
        · exact h.shakehand l g (.inr hg) hshake
        · obtain ⟨hid, hf, -⟩ := hspec (hes ▸ hg) hshake
          exact hid.trans (h.shakehand l f (.inl hmem) hf)
    · rintro n hn ⟨g, hg, hshake⟩
      rcases List.mem_append.1 hg with hg | hg
      · exact h.serverStatus.relies n (.inr ⟨l, hn, g, hg, hshake⟩)
      · obtain ⟨hid, hf, hlen, hready⟩ := hspec (hes ▸ hg) hshake
        have hpipe := (h.link n l hn).1
        have hknown := hc f (by rw [hto]; rfl) hf hlen (by rw [hpipe]; exact hn)
        obtain ⟨m, hm⟩ := Option.isSome_iff_exists.1 hknown
        refine ⟨m, ?_, readied_of_mem (hes ▸ hready m hm)⟩
        rw [h.shakehand l f (.inl hmem) hf, hpipe] at hm
        exact hm

theorem Paired.clientReceive (h : Paired s) : Paired (endpoints.next s (.clientReceive n)) := by
  cases hlink : s.link n with
  | none =>
    have hnext : endpoints.next s (.clientReceive n) = s := by simp only [endpoints, hlink]
    rw [hnext]
    exact h
  | some l =>
    cases hto : (s.links l).toClient with
    | nil =>
      have hnext : endpoints.next s (.clientReceive n) = s := by simp only [endpoints, hlink, hto]
      rw [hnext]
      exact h
    | cons f rest =>
      obtain ⟨es, hes⟩ : ∃ es, es = (clientConnection n).handleMsg s.clientMap f.1 f.2 := ⟨_, rfl⟩
      have hspec := @clientConnection_handleMsg f n s.clientMap
      rw [← hes] at hspec
      have hnext : endpoints.next s (.clientReceive n) =
          { s.setLink l
              { s.links l with
                toClient := rest
                toServer := (s.links l).toServer ++ sentFrames es
                completed := (s.links l).completed || decide (.onReady n ∈ es) } with
            clientStatus := readied es s.clientStatus
            lost := fun m => s.lost m && decide (.onReady m ∉ es) } := by
        simp only [endpoints, hlink, hto, hes]
      have hmem : f ∈ (s.links l).toClient := hto ▸ .head _
      have hset := h.setLink (x :=
        { s.links l with
          toClient := rest
          toServer := (s.links l).toServer ++ sentFrames es
          completed := (s.links l).completed || decide (.onReady n ∈ es) })
        (h.lt_of_frame (.inr hmem)) rfl (fun h => by simp [h]) ?_ ?_
      · rw [hnext]
        refine hset.clientStatus fun m hready => ?_
        obtain ⟨rfl, hshake⟩ := hspec.2 m hready
        refine ⟨h.relies m (.inr ⟨l, hlink, f, hmem, hshake⟩), l, hlink, ?_⟩
        refine (congrArg Link.completed (Function.update_self ..)).trans ?_
        rw [decide_eq_true hready, Bool.or_true]
      · rintro g (hg | hg) hshake
        · rw [hspec.1, List.append_nil] at hg
          exact h.shakehand l g (.inl hg) hshake
        · exact h.shakehand l g (.inr (hto ▸ .tail _ hg)) hshake
      · rintro m hm ⟨g, hg, hshake⟩
        exact h.relies m (.inr ⟨l, hm, g, hto ▸ .tail _ hg, hshake⟩)

theorem Paired.clientDisconnect (h : Paired s) (hc : KeepsPartners s (.clientDisconnect n)) :
    Paired (endpoints.next s (.clientDisconnect n)) := by
  cases hlink : s.link n with
  | none =>
    have hnext : endpoints.next s (.clientDisconnect n) = s := by simp only [endpoints, hlink]
    rw [hnext]
    exact h
  | some l =>
    have hnext : endpoints.next s (.clientDisconnect n) =
        { s.setLink l { s.links l with toClient := [] } with
          link := Function.update s.link n none, lost := Function.update s.lost n true } := by
      simp only [endpoints, hlink]
    rw [hnext]
    have hset := h.setLink (x := { s.links l with toClient := [] }) (h.link n l hlink).2 rfl id ?_ ?_
    · exact hset.unsetClientLink hc
    · rintro g (hg | hg) hshake
      · exact h.shakehand l g (.inl hg) hshake
      · cases hg
    · rintro m hm ⟨g, hg, -⟩
      cases hg

end SNet.Pipe
