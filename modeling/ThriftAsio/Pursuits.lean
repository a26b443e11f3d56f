import ThriftAsio.Connected
import ThriftAsio.Teardown

/-! How many ways a client is after a connection. The handler of a timer's wait leads to a
resolution or to another timer, a resolution to a connect or a timer, a connect to a receive or a
timer, a receive to another one or a timer. So none of these ever ends without the next, and those
that `connect_to` and failed writes begin beside them never go away again. -/

namespace ThriftAsio
open Proactor Asio Machine

namespace ClientTransport

variable {β : Type} {t : ClientTransport β}

def pursuits (t : ClientTransport β) : Nat :=
  t.resolver.length + t.socket.outstanding.countP fun op => op.message?.isNone

theorem pursuits_of_outstanding {u : ClientTransport β} (resolver : u.resolver = t.resolver)
    (socket : u.socket.outstanding = t.socket.outstanding) : u.pursuits = t.pursuits := by
  rw [pursuits, resolver, socket, pursuits]

@[simp] theorem pursuits_close (t : ClientTransport β) : t.close.state.pursuits = t.pursuits :=
  pursuits_of_outstanding rfl t.toTransport.outstanding_close

@[simp] theorem pursuits_open (t : ClientTransport β) : t.open'.pursuits = t.pursuits + 1 := by
  simp only [pursuits, open', start, Proactor.cancel, List.length_append, List.length_map,
    List.length_singleton]
  omega

@[simp] theorem pursuits_asyncConnect (t : ClientTransport β) (query : Query) :
    (t.asyncConnect query).pursuits = t.pursuits + 1 := by
  rw [pursuits, asyncConnect, Socket.outstanding_start, Socket.outstanding_reopen,
    List.countP_append]
  rfl

theorem pursuits_written {u : ClientTransport β} (resolver : u.resolver = t.resolver)
    (socket : u.socket = t.socket ∨ ∃ msg, u.socket = t.socket.start (.asyncWrite msg)) :
    u.pursuits = t.pursuits := by
  rcases socket with same | ⟨msg, started⟩
  · exact pursuits_of_outstanding resolver (congrArg _ same)
  · rw [pursuits, resolver, started, Socket.outstanding_start, List.countP_append]
    rfl

theorem pursuits_take {i : Nat} {op : SocketOp ConnectOp} {r : Completion β}
    (h : ready t.socket.ops i = some (op, r)) :
    pursuits { t with toTransport := t.toTransport.take i } +
      (if op.message?.isNone then 1 else 0) = t.pursuits := by
  obtain ⟨before, after, all, taken⟩ := Socket.outstanding_take h
  change t.resolver.length + (t.socket.take i).outstanding.countP _ + _ = _
  rw [taken, pursuits, all, List.countP_append, List.countP_append, List.countP_cons]
  omega

theorem pursuits_takeResolve {i : Nat} {query : Query} {r : Resolution}
    (h : ready t.resolver i = some (query, r)) :
    pursuits { t with resolver := t.resolver.eraseIdx i } + 1 = t.pursuits := by
  rw [pursuits, pursuits, ← length_eraseIdx h]
  exact Nat.add_right_comm ..

theorem pursuits_handle_ok (t : ClientTransport β) (op : SocketOp ConnectOp) (bytes : List β)
    (running : (t.handle op (.ok bytes)).fault = none) : (t.handle op (.ok bytes)).state.pursuits =
      t.pursuits + if op.message?.isNone then 1 else 0 := by
  cases op with
  | asyncReceive =>
    change t.resolver.length + (t.socket.start .asyncReceive).outstanding.countP _ = _
    rw [Socket.outstanding_start, List.countP_append]
    rfl
  | asyncWrite msg => exact pursuits_written rfl (Transport.onWritten_ok_socket t.toTransport bytes)
  | own op =>
    change (Transport.open' _).fault = none at running
    change t.resolver.length + (Transport.open' _).state.socket.outstanding.countP _ = _
    simp only [Transport.open'] at running ⊢
    split at running
    · rename_i opened
      rw [if_pos opened, Socket.outstanding_start, List.countP_append]
      rfl
    · cases running

theorem handle_ok_opened (t : ClientTransport β) {op : SocketOp ConnectOp} (bytes : List β)
    (opened : t.isOpen = true) (pursuit : op.message? = none) :
    (t.handle op (.ok bytes)).fault = none ∧
      (t.handle op (.ok bytes)).state.socket = t.socket.start .asyncReceive := by
  cases op with
  | asyncReceive => exact ⟨rfl, rfl⟩
  | asyncWrite msg => cases pursuit
  | own op => simp only [handle, onConnect, base, Transport.open', if_pos opened, and_self]

end ClientTransport

namespace Client

variable {c : Client}

/-- The outstanding operations by which the client is after a connection or on it. -/
def pursuits (c : Client) : Nat := c.timers.waits.length + c.transport.pursuits

/-- The steps that begin one without ending another: those of `connect_to`, and of the handler of a
failed write. -/
def branches (c : Client) : Event → List Event
  | .connectTo query => [.connectTo query]
  | .run i =>
    match ready c.transport.socket.ops i with
    | some (.asyncWrite _, .error _) => [.run i]
    | _ => []
  | _ => []

@[simp] theorem length_rearm (t : Timers) : t.rearm.waits.length = t.waits.length + 1 := by
  simp [Timers.rearm, start, cancelWhere]

theorem pursuits_after {o : Outcome (ClientTransport Arrived)}
    (quiet : ∀ ec, .onError ec ∉ o.calls) :
    (c.after o).pursuits = c.timers.waits.length + o.state.pursuits := by
  obtain ⟨timers, calls, h⟩ := after_eq c o
  rw [pursuits, after_timers_quiet c quiet, h]

theorem pursuits_failed (c : Client) (t : ClientTransport Arrived) (ec : ErrorCode) :
    (c.after ⟨t, [.onError ec, .onDisconnected], none⟩).pursuits =
      c.timers.waits.length + 1 + t.pursuits := by
  change c.timers.rearm.waits.length + t.pursuits = _
  rw [length_rearm]

theorem running_before {e : Event} (running : (c.step e).fault = none) : c.fault = none := by
  by_contra dead
  rw [step_dead dead] at running
  exact dead running

theorem pursuits_run {i : Nat} (running : (c.act (.run i)).fault = none) :
    (c.act (.run i)).pursuits = c.pursuits + (c.branches (.run i)).length := by
  cases h : ready c.transport.socket.ops i with
  | none => simp [act, branches, h]
  | some x =>
    obtain ⟨op, r⟩ := x
    have taken := ClientTransport.pursuits_take h
    simp only [act, branches, h] at running ⊢
    change (c.taking i).pursuits + _ = _ at taken
    cases r with
    | error ec =>
      rw [ClientTransport.handle_error, pursuits_failed, ClientTransport.pursuits_close, pursuits,
        ← taken]
      cases op <;> simp [SocketOp.message?] <;> omega
    | ok bytes =>
      obtain ⟨timers, calls, after⟩ := after_eq c ((c.taking i).handle op (.ok bytes))
      rw [after] at running
      have handled := (c.taking i).pursuits_handle_ok op bytes running
      have quiet : ∀ ec, .onError ec ∉ ((c.taking i).handle op (.ok bytes)).calls :=
        fun ec called => by cases ClientTransport.handle_ok_calls _ _ _ _ called
      rw [pursuits_after quiet, handled, taken, pursuits]
      cases op <;> rfl

theorem pursuits_runResolve (c : Client) (i : Nat) :
    (c.act (.runResolve i)).pursuits = c.pursuits := by
  cases h : ready c.transport.resolver i with
  | none => simp [act, h]
  | some x =>
    obtain ⟨query, r⟩ := x
    have taken := ClientTransport.pursuits_takeResolve h
    simp only [act, h]
    cases r with
    | error ec =>
      rw [ClientTransport.onResolve_error, pursuits_failed, ClientTransport.pursuits_close, pursuits,
        ← taken]
      omega
    | ok u =>
      rw [pursuits_after (by simp [ClientTransport.onResolve]), ClientTransport.onResolve,
        ClientTransport.pursuits_asyncConnect, taken, pursuits]

theorem pursuits_runWait (c : Client) (i : Nat) : (c.act (.runWait i)).pursuits = c.pursuits := by
  cases h : ready c.timers.waits i with
  | none => simp [act, h]
  | some x =>
    obtain ⟨timer, r⟩ := x
    have taken := length_eraseIdx h
    simp only [act, h]
    cases r with
    | error ec =>
      change (Timers.rearm _).waits.length + c.transport.pursuits = _
      rw [length_rearm, taken, pursuits]
    | ok u =>
      change (c.timers.waits.eraseIdx i).length + c.transport.open'.pursuits = _
      rw [ClientTransport.pursuits_open, pursuits, ← taken]
      omega

theorem pursuits_nextEndpoint (c : Client) (i : Nat) :
    (c.act (.nextEndpoint i)).pursuits = c.pursuits := by
  refine congrArg (c.timers.waits.length + ·) ?_
  change (c.transport.nextEndpoint i).pursuits = _
  unfold ClientTransport.nextEndpoint
  split
  · rename_i query running
    obtain ⟨before, after, all, rest⟩ := eraseIdx_split running
    rw [ClientTransport.pursuits_asyncConnect]
    change c.transport.resolver.length + (kinds (c.transport.socket.ops.eraseIdx i)).countP _ + 1 =
      c.transport.resolver.length + (kinds c.transport.socket.ops).countP _
    rw [rest, all, kinds_append, kinds_append, kinds_cons, List.countP_append, List.countP_append,
      List.countP_cons]
    simp only [SocketOp.message?, Option.isNone_none, if_true]
    omega
  · rfl

theorem pursuits_step (c : Client) (e : Event) (running : (c.step e).fault = none) :
    (c.step e).pursuits = c.pursuits + (c.branches e).length := by
  by_cases dead : c.fault ≠ none
  · rw [step_dead dead] at running
    exact absurd running dead
  rw [step_running (not_not.mp dead)] at running ⊢
  cases e with
  | connectTo query =>
    have quiet : ∀ ec, .onError ec ∉ (c.transport.connectTo query).calls := by
      simp [ClientTransport.connectTo, ClientTransport.close, ClientTransport.base,
        Transport.close]
    have closed := c.transport.pursuits_close
    rw [act, pursuits_after quiet, ClientTransport.connectTo, ClientTransport.pursuits_open]
    change _ + (c.transport.close.state.pursuits + 1) = _
    rw [closed, pursuits, branches]
    exact (Nat.add_assoc ..).symm
  | send frame =>
    refine congrArg (c.timers.waits.length + ·) ?_
    exact ClientTransport.pursuits_written rfl (c.transport.toTransport.write_socket frame)
  | update => rw [act, pursuits, update_timers, (update_same c).1]; rfl
  | read =>
    obtain ⟨resolver, socket, -, -⟩ := read_same c
    rw [act, pursuits, read_timers,
      ClientTransport.pursuits_of_outstanding resolver (congrArg _ socket)]
    rfl
  | finish i r =>
    refine congrArg (c.timers.waits.length + ·) ?_
    exact ClientTransport.pursuits_of_outstanding rfl (Socket.outstanding_finish _ _ _)
  | nextEndpoint i => exact c.pursuits_nextEndpoint i
  | run i => exact pursuits_run running
  | resolved i r =>
    have same : (finish i r c.transport.resolver).length = c.transport.resolver.length := by
      simp [finish]
    rw [act, pursuits, ClientTransport.pursuits, same]
    rfl
  | runResolve i => exact c.pursuits_runResolve i
  | expire i => simp [act, pursuits, branches, finish]
  | runWait i => exact c.pursuits_runWait i

/-- No pursuit of a connection is ever given up. In every run that has not ended in a fault there
are as many as the first one and those that were begun beside others. -/
theorem pursuits_conserved (query : Query) (es : List Event)
    (running : (run step (create query) es).fault = none) :
    (run step (create query) es).pursuits =
      1 + (collect step branches (create query) es).length := by
  refine run_collected
    (I := fun (c : Client) (begun : List Event) => c.fault = none → c.pursuits = 1 + begun.length)
    (C := fun _ _ => True) (h := []) (fun c e begun kept _ running => ?_) (fun _ => rfl)
    (along_of_forall _ fun _ _ => trivial) running
  rw [pursuits_step c e running, kept (running_before running), List.length_append, Nat.add_assoc]

theorem pursuits_conserved_twice :
    (run step (create home) (connecting ++ [.connectTo home, .run 0, .resolved 0 (.ok ()),
      .runResolve 0, .finish 0 (.ok []), .run 0])).pursuits = 1 + 1 :=
  pursuits_conserved home _ rfl

theorem pursuits_pos (query : Query) (es : List Event)
    (running : (run step (create query) es).fault = none) :
    0 < (run step (create query) es).pursuits := by
  refine run_invariant (I := fun c : Client => c.fault = none → 0 < c.pursuits)
    (s := create query) (fun c e kept running => ?_) (fun _ => Nat.one_pos) es running
  rw [pursuits_step c e running]
  exact Nat.add_pos_left (kept (running_before running)) _

end Client

end ThriftAsio
