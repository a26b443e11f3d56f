import ThriftAsio.Attempts
import ThriftAsio.Pursuits

/-! A client can always get its connection. A failed connect of an earlier attempt would still close
the socket, so the handlers of these run first. Then a timer or a resolution leads to a connect,
unless one is running already, and all connects that are left succeed. -/

namespace ThriftAsio
open Proactor Asio Machine

namespace Client

variable {c : Client}

/-- What happens goes well, and the application and the processor leave the client alone. -/
def Event.Well : Event → Prop
  | .finish _ (.ok _) | .resolved _ (.ok _) => True
  | .run _ | .runResolve _ | .expire _ | .runWait _ => True
  | _ => False

def Connecting (c : Client) : Prop := ∃ op, .own op ∈ c.transport.socket.outstanding

/-- `on_connected` was called, and `on_disconnected` not since. -/
def Told (c : Client) : Prop :=
  ∃ before after, c.calls = before ++ .onConnected :: after ∧ .onDisconnected ∉ after

/-- The client has its connection and knows of it, nothing is connecting any more, and a receive is
running. -/
structure Up (c : Client) : Prop where
  running : c.fault = none
  opened : c.transport.isOpen = true
  connected : ¬ c.Connecting
  told : c.Told
  receiving : ⟨.asyncReceive, none⟩ ∈ c.transport.socket.ops

def Sought (c : Client) : Prop :=
  c.transport.isOpen = true ∨ c.timers.waits ≠ [] ∨ c.transport.resolver ≠ []

theorem Sought.same (sought : c.Sought) {d : Client}
    (isOpen : d.transport.isOpen = c.transport.isOpen) (timers : d.timers = c.timers)
    (resolver : d.transport.resolver = c.transport.resolver) : d.Sought := by
  rwa [Sought, isOpen, timers, resolver]

theorem Sought.of_rearmed {t : Timers} (rearmed : c.timers = t.rearm) : c.Sought := by
  refine .inr (.inl ?_)
  rw [rearmed]
  simp [Timers.rearm, start]

theorem Sought.run (sought : c.Sought) (i : Nat) : (c.act (.run i)).Sought := by
  cases h : ready c.transport.socket.ops i with
  | none => simpa only [act, h] using sought
  | some x =>
    obtain ⟨op, r⟩ := x
    simp only [act, h]
    cases r with
    | error ec =>
      rw [ClientTransport.handle_error]
      exact .of_rearmed rfl
    | ok bytes =>
      have quiet : ∀ ec, .onError ec ∉ ((c.taking i).handle op (.ok bytes)).calls :=
        fun ec called => by cases ClientTransport.handle_ok_calls _ _ _ _ called
      refine sought.same ?_ (after_timers_quiet c quiet) ?_
      · rw [after_transport]
        exact Attempts.isOpen_handle (c.taking i) op bytes
      · rw [after_transport]
        cases op <;> rfl

theorem Sought.runResolve (sought : c.Sought) (i : Nat) : (c.act (.runResolve i)).Sought := by
  cases h : ready c.transport.resolver i with
  | none => simpa only [act, h] using sought
  | some x =>
    obtain ⟨query, r⟩ := x
    simp only [act, h]
    cases r with
    | error ec => exact .of_rearmed rfl
    | ok u => exact .inl rfl

theorem Sought.runWait (sought : c.Sought) (i : Nat) : (c.act (.runWait i)).Sought := by
  cases h : ready c.timers.waits i with
  | none => simpa only [act, h] using sought
  | some x =>
    obtain ⟨timer, r⟩ := x
    simp only [act, h]
    cases r with
    | error ec => exact .of_rearmed rfl
    | ok u => exact .inr (.inr (by simp [onWait, ClientTransport.open', start]))

theorem Sought.step (sought : c.Sought) (e : Event) : (c.step e).Sought := by
  by_cases dead : c.fault ≠ none
  · rwa [step_dead dead]
  rw [step_running (not_not.mp dead)]
  cases e with
  | connectTo query =>
    refine .inr (.inr ?_)
    rw [act, after_transport]
    simp [ClientTransport.connectTo, ClientTransport.open', start]
  | send frame => exact sought.same (Attempts.isOpen_write c.transport frame) rfl rfl
  | update =>
    have transport := (update_same c).1
    exact sought.same (congrArg (fun t : ClientTransport Arrived => t.isOpen) transport)
      (update_timers c) (congrArg ClientTransport.resolver transport)
  | read =>
    obtain ⟨resolver, socket, -, -⟩ := read_same c
    exact sought.same (congrArg Socket.isOpen socket) (read_timers c) resolver
  | finish i r => exact sought
  | nextEndpoint i =>
    simp only [act, ClientTransport.nextEndpoint]
    split
    · exact .inl rfl
    · exact sought
  | run i => exact sought.run i
  | resolved i r =>
    refine sought.imp id (.imp id fun some none => some ?_)
    exact List.modify_eq_nil_iff.mp none
  | runResolve i => exact sought.runResolve i
  | expire i =>
    refine sought.imp id (.imp (fun some none => some ?_) id)
    exact List.modify_eq_nil_iff.mp none
  | runWait i => exact sought.runWait i

def Known (c : Client) : Prop := c.transport.isOpen = true → c.Connecting ∨ c.Told

theorem Known.of_closed (closed : c.transport.isOpen = false) : c.Known :=
  fun opened => absurd (closed.symm.trans opened) (by decide)

theorem Known.stays (known : c.Known) {d : Client}
    (isOpen : d.transport.isOpen = c.transport.isOpen) (connecting : c.Connecting → d.Connecting)
    {more : List Callback} (calls : d.calls = c.calls ++ more) (quiet : .onDisconnected ∉ more) :
    d.Known := by
  intro opened
  rcases known (isOpen ▸ opened) with under | ⟨before, after, told, since⟩
  · exact .inl (connecting under)
  · refine .inr ⟨before, after ++ more, ?_, by simp [since, quiet]⟩
    rw [calls, told, List.append_assoc, List.cons_append]

theorem Known.same (known : c.Known) {d : Client}
    (socket : d.transport.socket.outstanding = c.transport.socket.outstanding)
    (isOpen : d.transport.isOpen = c.transport.isOpen) (calls : d.calls = c.calls) : d.Known := by
  have nothing : d.calls = c.calls ++ [] := by rw [calls, List.append_nil]
  exact known.stays isOpen (fun ⟨op, mem⟩ => ⟨op, by rwa [socket]⟩) nothing (by simp)

theorem connecting_handle {i : Nat} {op : SocketOp ConnectOp} {bytes : List Arrived}
    (h : ready c.transport.socket.ops i = some (op, .ok bytes)) (other : op.own? = none)
    (connecting : c.Connecting) : (c.after ((c.taking i).handle op (.ok bytes))).Connecting := by
  obtain ⟨own, mem⟩ := connecting
  obtain ⟨before, after, all, rest⟩ := Socket.outstanding_take h
  have different : .own own ≠ op := by
    rintro rfl
    cases other
  have taken : .own own ∈ (c.taking i).socket.outstanding := by
    change .own own ∈ (c.transport.socket.take i).outstanding
    rw [all] at mem
    rw [rest]
    simpa [different] using mem
  refine ⟨own, ?_⟩
  rw [after_transport]
  rcases (c.taking i).handle_ok_socket op bytes with same | ⟨op', started⟩
  · rwa [same]
  · rw [started, Socket.outstanding_start]
    exact List.mem_append_left _ taken

theorem connecting_send (frame : List UInt8) (connecting : c.Connecting) :
    (c.act (.send frame)).Connecting := by
  obtain ⟨op, mem⟩ := connecting
  refine ⟨op, ?_⟩
  change _ ∈ (c.transport.toTransport.write frame).socket.outstanding
  rcases c.transport.toTransport.write_socket frame with same | ⟨msg, started⟩
  · rwa [same]
  · rw [started, Socket.outstanding_start]
    exact List.mem_append_left _ mem

theorem Known.run (known : c.Known) (i : Nat) : (c.act (.run i)).Known := by
  cases h : ready c.transport.socket.ops i with
  | none => simpa only [act, h] using known
  | some x =>
    obtain ⟨op, r⟩ := x
    simp only [act, h]
    cases r with
    | error ec =>
      refine .of_closed ?_
      rw [after_transport, ClientTransport.handle_error]
      exact Transport.isOpen_close _
    | ok bytes =>
      have isOpen : (c.after ((c.taking i).handle op (.ok bytes))).transport.isOpen =
          c.transport.isOpen := by
        rw [after_transport]
        exact Attempts.isOpen_handle (c.taking i) op bytes
      have calls := c.after_calls ((c.taking i).handle op (.ok bytes))
      rw [ClientTransport.calls_handle_ok] at calls
      cases op with
      | own op => exact fun _ => .inr ⟨c.calls, [], calls, List.not_mem_nil⟩
      | _ => exact known.stays isOpen (connecting_handle h rfl) calls (by simp)

theorem Known.step (known : c.Known) (e : Event) : (c.step e).Known := by
  by_cases dead : c.fault ≠ none
  · rwa [step_dead dead]
  rw [step_running (not_not.mp dead)]
  cases e with
  | connectTo query =>
    refine .of_closed ?_
    rw [act, after_transport]
    exact Transport.isOpen_close _
  | send frame =>
    exact known.stays (Attempts.isOpen_write c.transport frame) (connecting_send frame)
      (List.append_nil _).symm (by simp)
  | update =>
    obtain ⟨transport, calls⟩ := update_same c
    rw [act]
    exact known.same (by rw [transport]) (by rw [transport]) calls
  | read =>
    obtain ⟨-, socket, calls, -⟩ := read_same c
    exact known.same (congrArg Socket.outstanding socket) (congrArg Socket.isOpen socket) calls
  | finish i r => exact known.same (Socket.outstanding_finish _ _ _) rfl rfl
  | nextEndpoint i =>
    simp only [act, ClientTransport.nextEndpoint]
    split
    · rename_i query running
      refine fun _ => .inl ⟨.asyncConnect query, ?_⟩
      rw [ClientTransport.asyncConnect, Socket.outstanding_start]
      exact List.mem_append_right _ List.mem_cons_self
    · exact known
  | run i => exact known.run i
  | resolved i r => exact known
  | runResolve i =>
    cases h : ready c.transport.resolver i with
    | none => simpa only [act, h] using known
    | some x =>
      obtain ⟨query, r⟩ := x
      simp only [act, h]
      cases r with
      | error ec =>
        refine .of_closed ?_
        rw [after_transport]
        exact Transport.isOpen_close _
      | ok u =>
        refine fun _ => .inl ⟨.asyncConnect query, ?_⟩
        rw [after_transport, ClientTransport.onResolve, ClientTransport.asyncConnect,
          Socket.outstanding_start]
        exact List.mem_append_right _ List.mem_cons_self
  | expire i => exact known
  | runWait i =>
    cases h : ready c.timers.waits i with
    | none => simpa only [act, h] using known
    | some x =>
      obtain ⟨timer, r⟩ := x
      simp only [act, h]
      cases r with
      | error ec =>
        refine known.stays rfl id (?_ : _ = c.calls ++ [.onError ec]) (by simp)
        rfl
      | ok u => exact known.same rfl rfl rfl

def Unfailed (o : Op (SocketOp ConnectOp) (Completion Arrived)) : Prop :=
  ∀ op, o.kind = .own op → ∀ ec, o.result ≠ some (.error ec)

def Succeeded (o : Op (SocketOp ConnectOp) (Completion Arrived)) : Prop :=
  ∀ op, o.kind = .own op → ∃ bytes, o.result = some (.ok bytes)

theorem Succeeded.unfailed {o : Op (SocketOp ConnectOp) (Completion Arrived)} (ok : Succeeded o) :
    Unfailed o := by
  intro op kind ec failed
  obtain ⟨bytes, result⟩ := ok op kind
  rw [result] at failed
  cases failed

theorem stable_succeeded : Attempts.Stable Succeeded := by
  refine ⟨fun r op h => ?_, fun msg r op h => ?_, fun o r h op kind => ?_⟩
  · cases h
  · cases h
  · obtain ⟨bytes, result⟩ := h op kind
    exact ⟨bytes, by simp [Op.settle, result]⟩

def connectsLeft (c : Client) : Nat := c.transport.socket.outstanding.countP (·.own?.isSome)

theorem connectsLeft_taking {i : Nat} {op : ConnectOp} {r : Completion Arrived}
    (h : ready c.transport.socket.ops i = some (.own op, r)) :
    (c.taking i).socket.outstanding.countP (·.own?.isSome) < c.connectsLeft := by
  obtain ⟨before, after, all, rest⟩ := Socket.outstanding_take h
  change (c.transport.socket.take i).outstanding.countP _ < _
  rw [connectsLeft, rest, all, List.countP_append, List.countP_append, List.countP_cons]
  simp [SocketOp.own?]

theorem leads_unfailed (running : c.fault = none) : Leads step Event.Well c fun d =>
    d.fault = none ∧ ∀ o ∈ d.transport.socket.ops, Unfailed o := by
  refine exists_run_to step (I := fun d => d.fault = none) (E := Event.Well)
    (G := fun d => ∀ o ∈ d.transport.socket.ops, Unfailed o) connectsLeft
    (fun d running failed => ?_) running
  simp only [Unfailed, not_forall, not_not] at failed
  obtain ⟨o, mem, op, kind, ec, result⟩ := failed
  obtain ⟨kind', result'⟩ := o
  obtain rfl : kind' = .own op := kind
  obtain rfl : result' = some (.error ec) := result
  obtain ⟨i, h⟩ := exists_ready mem
  -- the handler closes the socket, which may abort other connects, but there is one less of them
  have stepped : d.step (.run i) =
      d.after ⟨(d.taking i).close.state, [.onError ec, .onDisconnected], none⟩ := by
    rw [step_running running]
    simp only [act, h, ClientTransport.handle_error]
  refine ⟨.run i, trivial, by rw [stepped]; rfl, ?_⟩
  have closed : (d.step (.run i)).transport.socket.outstanding = (d.taking i).socket.outstanding := by
    rw [stepped, after_transport]
    exact (d.taking i).toTransport.outstanding_close
  rw [connectsLeft, closed]
  exact connectsLeft_taking h

/-- A socket that is open, on which something is connecting that has not failed or receiving. -/
structure Going (c : Client) : Prop where
  running : c.fault = none
  opened : c.transport.isOpen = true
  unfailed : ∀ o ∈ c.transport.socket.ops, Unfailed o
  alive : c.Connecting ∨ ⟨.asyncReceive, none⟩ ∈ c.transport.socket.ops

theorem going_handled (running : c.fault = none) (opened : c.transport.isOpen = true)
    (unfailed : ∀ o ∈ c.transport.socket.ops, Unfailed o) {i : Nat} {op : SocketOp ConnectOp}
    {bytes : List Arrived} (h : ready c.transport.socket.ops i = some (op, .ok bytes))
    (pursuit : op.message? = none) : (c.step (.run i)).Going ∧
      (c.step (.run i)).transport.socket = (c.taking i).socket.start .asyncReceive := by
  have opened' : (c.taking i).isOpen = true := opened
  have isOpen : (c.taking i).socket.isOpen = true := opened'
  obtain ⟨fault, started⟩ := (c.taking i).handle_ok_opened bytes opened' pursuit
  have stepped : c.step (.run i) = c.after ((c.taking i).handle op (.ok bytes)) := by
    rw [step_running running]
    simp only [act, h]
  obtain ⟨timers, calls, after⟩ := after_eq c ((c.taking i).handle op (.ok bytes))
  have socket : (c.step (.run i)).transport.socket =
      (c.taking i).socket.start .asyncReceive := by rw [stepped, after, started]
  refine ⟨⟨by rw [stepped, after, fault], ?_, ?_, .inr ?_⟩, socket⟩
  · change Socket.isOpen _ = true
    rw [socket]
    exact opened'
  · rw [socket, Socket.start, if_pos isOpen]
    exact forall_start (forall_eraseIdx unfailed i) fun op kind => by cases kind
  · rw [socket, Socket.start, if_pos isOpen]
    exact List.mem_append_right _ List.mem_cons_self

theorem Going.finish (going : c.Going) {i : Nat} {op : ConnectOp}
    (h : c.transport.socket.ops[i]? = some ⟨.own op, none⟩) :
    (c.step (.finish i (.ok []))).Going ∧
      (c.step (.finish i (.ok []))).connectsLeft = c.connectsLeft ∧
      ready (c.step (.finish i (.ok []))).transport.socket.ops i = some (.own op, .ok []) := by
  rw [step_running going.running]
  have outstanding : (c.act (.finish i (.ok []))).transport.socket.outstanding =
      c.transport.socket.outstanding := Socket.outstanding_finish _ _ _
  refine ⟨⟨going.running, going.opened, ?_, .inl ?_⟩, ?_, ready_finish h (.ok [])⟩
  · refine forall_finish going.unfailed (fun o ho op kind ec => ?_) i
    have before := ho op kind ec
    cases result : o.result with
    | none => simp [Op.settle, result, Except.map]
    | some r => simpa [Op.settle, result] using before
  · refine ⟨op, ?_⟩
    rw [outstanding]
    exact List.mem_map_of_mem (f := Op.kind) (List.mem_of_getElem? h)
  · rw [connectsLeft, outstanding, connectsLeft]

theorem Going.leads (going : c.Going) :
    Leads step Event.Well c fun d => d.Going ∧ ¬ d.Connecting := by
  have handled : ∀ (d : Client), d.Going → ∀ {i op bytes},
      ready d.transport.socket.ops i = some (.own op, .ok bytes) →
      (d.step (.run i)).Going ∧ (d.step (.run i)).connectsLeft < d.connectsLeft := by
    intro d going i op bytes h
    obtain ⟨next, socket⟩ := going_handled going.running going.opened going.unfailed h rfl
    refine ⟨next, ?_⟩
    rw [connectsLeft, socket, Socket.outstanding_start, List.countP_append]
    exact connectsLeft_taking h
  suffices settled : Leads step Event.Well c fun d => ∃ a, (d = a ∧ a.Going) ∧ ¬ a.Connecting from
    settled.mono fun d ⟨a, ⟨same, going⟩, quiet⟩ => same ▸ ⟨going, quiet⟩
  refine Leads.iterate (I := fun d a => d = a ∧ a.Going) connectsLeft
    (fun s a ⟨same, going⟩ connecting => ?_) ⟨rfl, going⟩
  subst same
  obtain ⟨op, outstanding⟩ := not_not.mp connecting
  obtain ⟨⟨kind, result⟩, mem, same⟩ := List.mem_map.mp outstanding
  obtain rfl : kind = .own op := same
  match result with
  | none =>
    obtain ⟨i, h⟩ := List.mem_iff_getElem?.mp mem
    obtain ⟨next, same, ready⟩ := going.finish h
    obtain ⟨last, fewer⟩ := handled _ next ready
    exact .next (e := .finish i (.ok [])) trivial (.next (e := .run i) trivial
      (.here ⟨_, ⟨rfl, last⟩, same ▸ fewer⟩))
  | some (.ok bytes) =>
    obtain ⟨i, h⟩ := exists_ready mem
    obtain ⟨last, fewer⟩ := handled _ going h
    exact .next (e := .run i) trivial (.here ⟨_, ⟨rfl, last⟩, fewer⟩)
  | some (.error ec) => exact absurd rfl (going.unfailed _ mem op rfl ec)

section Leads

variable (running : c.fault = none) (ok : ∀ o ∈ c.transport.socket.ops, Succeeded o)
include running ok

theorem leads_resolved {i : Nat} {query : Query}
    (h : ready c.transport.resolver i = some (query, .ok ())) :
    Leads step Event.Well c Going := by
  refine .next (e := .runResolve i) trivial ?_
  rw [step_running running]
  simp only [act, h]
  have started : ⟨.own (.asyncConnect query), none⟩ ∈
      (c.transport.asyncConnect query).socket.ops := List.mem_append_right _ List.mem_cons_self
  have unfailed : ∀ o ∈ (c.transport.asyncConnect query).socket.ops, Unfailed o :=
    forall_start (fun o mem => (stable_succeeded.cancel ok o mem).unfailed)
      fun op _ ec failed => by cases failed
  exact .here ⟨rfl, rfl, unfailed, .inl ⟨_, List.mem_map_of_mem (f := Op.kind) started⟩⟩

theorem leads_resolving {query : Query} (mem : ⟨query, none⟩ ∈ c.transport.resolver) :
    Leads step Event.Well c Going := by
  obtain ⟨i, h⟩ := List.mem_iff_getElem?.mp mem
  refine .next (e := .resolved i (.ok ())) trivial ?_
  rw [step_running running]
  refine leads_resolved ?_ ?_ (ready_finish h _)
  · exact running
  · exact ok

theorem leads_expired {i timer : Nat} (h : ready c.timers.waits i = some (timer, .ok ())) :
    Leads step Event.Well c Going := by
  refine .next (e := .runWait i) trivial ?_
  rw [step_running running]
  simp only [act, h]
  have resolving : ⟨c.transport.query, none⟩ ∈ c.transport.open'.resolver :=
    List.mem_append_right _ List.mem_cons_self
  exact leads_resolving running ok resolving

theorem leads_pending {timer : Nat} (mem : ⟨timer, none⟩ ∈ c.timers.waits) :
    Leads step Event.Well c Going := by
  obtain ⟨i, h⟩ := List.mem_iff_getElem?.mp mem
  refine .next (e := .expire i) trivial ?_
  rw [step_running running]
  exact leads_expired running ok (ready_finish h _)

theorem leads_rearmed {t : Timers} (rearmed : c.timers = t.rearm) :
    Leads step Event.Well c Going := by
  have pending : ⟨t.made, none⟩ ∈ t.rearm.waits := List.mem_append_right _ List.mem_cons_self
  exact leads_pending running ok (rearmed ▸ pending)

theorem leads_wait {w : Timers.Wait} (mem : w ∈ c.timers.waits) :
    Leads step Event.Well c Going := by
  obtain ⟨timer, result⟩ := w
  match result with
  | none => exact leads_pending running ok mem
  | some (.ok ()) =>
    obtain ⟨i, h⟩ := exists_ready mem
    exact leads_expired running ok h
  | some (.error ec) =>
    obtain ⟨i, h⟩ := exists_ready mem
    refine .next (e := .runWait i) trivial ?_
    rw [step_running running]
    simp only [act, h]
    exact leads_rearmed running ok rfl

theorem leads_resolution {o : Op Query Resolution} (mem : o ∈ c.transport.resolver) :
    Leads step Event.Well c Going := by
  obtain ⟨query, result⟩ := o
  match result with
  | none => exact leads_resolving running ok mem
  | some (.ok ()) =>
    obtain ⟨i, h⟩ := exists_ready mem
    exact leads_resolved running ok h
  | some (.error ec) =>
    obtain ⟨i, h⟩ := exists_ready mem
    refine .next (e := .runResolve i) trivial ?_
    rw [step_running running]
    simp only [act, h]
    exact leads_rearmed rfl (stable_succeeded.close (t := { c.transport with resolver := _ }) ok) rfl

theorem leads_receive (opened : c.transport.isOpen = true) {result : Option (Completion Arrived)}
    (mem : ⟨.asyncReceive, result⟩ ∈ c.transport.socket.ops) : Leads step Event.Well c Going := by
  have unfailed : ∀ o ∈ c.transport.socket.ops, Unfailed o := fun o mem => (ok o mem).unfailed
  match result with
  | none => exact .here ⟨running, opened, unfailed, .inr mem⟩
  | some (.ok bytes) =>
    obtain ⟨i, h⟩ := exists_ready mem
    exact .next (e := .run i) trivial (.here (going_handled running opened unfailed h rfl).1)
  | some (.error ec) =>
    obtain ⟨i, h⟩ := exists_ready mem
    refine .next (e := .run i) trivial ?_
    rw [step_running running]
    simp only [act, h, ClientTransport.handle_error]
    exact leads_rearmed rfl (stable_succeeded.close (t := c.taking i) (forall_eraseIdx ok i)) rfl

end Leads

structure Reachable (c : Client) : Prop where
  sought : c.Sought
  known : c.Known
  pursued : c.fault = none → 0 < c.pursuits
  settled : c.transport.isOpen = false → ∀ o ∈ c.transport.socket.ops, Attempts.Settled o

theorem reachable_run (query : Query) (es : List Event) :
    (run step (create query) es).Reachable := by
  obtain ⟨attempts, follows⟩ := transport_follows query es
  have sound := Attempts.sound_run query attempts
  refine ⟨?_, ?_, pursuits_pos query es, by rw [← follows.transport]; exact sound.settled⟩
  · refine run_invariant (fun _ e sought => sought.step e) (.inr (.inr ?_)) es
    simp [create, ClientTransport.open', start]
  · exact run_invariant (fun _ e known => known.step e) (.of_closed rfl) es

theorem Reachable.leads (reachable : c.Reachable) (running : c.fault = none)
    (unfailed : ∀ o ∈ c.transport.socket.ops, Unfailed o) : Leads step Event.Well c Going := by
  by_cases under : c.transport.isOpen = true ∧ c.Connecting
  · exact .here ⟨running, under.1, unfailed, .inl under.2⟩
  have ok : ∀ o ∈ c.transport.socket.ops, Succeeded o := by
    intro o mem op kind
    have connecting : c.Connecting := ⟨op, kind ▸ List.mem_map_of_mem (f := Op.kind) mem⟩
    have closed : c.transport.isOpen = false :=
      eq_false_of_ne_true fun opened => under ⟨opened, connecting⟩
    match result : o.result with
    | none => exact absurd result (reachable.settled closed o mem op kind)
    | some (.ok bytes) => exact ⟨bytes, rfl⟩
    | some (.error ec) => exact absurd result (unfailed o mem op kind ec)
  by_cases waits : c.timers.waits = []
  · by_cases resolver : c.transport.resolver = []
    · have opened : c.transport.isOpen = true := by
        simpa [Sought, waits, resolver] using reachable.sought
      have others : 0 < c.transport.socket.outstanding.countP fun op => op.message?.isNone := by
        simpa [pursuits, ClientTransport.pursuits, waits, resolver] using reachable.pursued running
      obtain ⟨op, mem, pursues⟩ := List.countP_pos_iff.mp others
      cases op with
      | asyncReceive =>
        obtain ⟨⟨kind, result⟩, found, rfl⟩ := List.mem_map.mp mem
        exact leads_receive running ok opened found
      | asyncWrite msg => cases pursues
      | own op => exact absurd ⟨opened, op, mem⟩ under
    · obtain ⟨o, mem⟩ := List.exists_mem_of_ne_nil _ resolver
      exact leads_resolution running ok mem
  · obtain ⟨w, mem⟩ := List.exists_mem_of_ne_nil _ waits
    exact leads_wait running ok mem

/-- The client can always get its connection: wherever a run has brought it short of a fault, if
all goes well from now on, some run of its own handlers leads to a connection that its user was told
of and on which it receives, with no connect left. -/
theorem recovers (query : Query) (es : List Event)
    (running : (run step (create query) es).fault = none) :
    Leads step Event.Well (run step (create query) es) Up := by
  have reached : ∀ {P : Client → Prop} {fs : List Event},
      Leads step Event.Well (run step (create query) fs) P →
      Leads step Event.Well (run step (create query) fs) fun d =>
        P d ∧ ∃ gs, d = run step (create query) gs := by
    rintro P fs ⟨gs, well, goal⟩
    exact ⟨gs, well, goal, fs ++ gs, (run_append ..).symm⟩
  refine (reached (leads_unfailed running)).bind ?_
  rintro d ⟨⟨running, unfailed⟩, fs, rfl⟩
  refine (reached ((reachable_run query fs).leads running unfailed)).bind ?_
  rintro d ⟨going, fs, rfl⟩
  refine (reached going.leads).mono ?_
  rintro d ⟨⟨going, quiet⟩, fs, rfl⟩
  exact ⟨going.running, going.opened, quiet,
    ((reachable_run query fs).known going.opened).resolve_left quiet,
    going.alive.resolve_left quiet⟩

theorem recovers_starving : Leads step Event.Well (run step (create home) (connecting ++
    [.send [0, 0, 0, 0], .finish 0 (.error .eof), .run 0, .run 0])) Up :=
  recovers home _ rfl

end Client

end ThriftAsio
