import ThriftAsio.Attempts
import ThriftAsio.Pursuits

/-! The client as it is meant to be: it waits, resolves the name, connects and receives, one after
the other, and any error takes it back to waiting. It is this as long as `connect_to` is not called
and no write fails. -/

namespace ThriftAsio
open Proactor Asio Machine

inductive Stage where
  | waiting
  | resolving
  | connecting
  | receiving
  deriving DecidableEq, Repr

namespace Stage

def next : Stage → Except ErrorCode Unit → Stage
  | .waiting, .ok () => .resolving
  | .resolving, .ok () => .connecting
  | .connecting, .ok () => .receiving
  | .receiving, .ok () => .receiving
  | _, .error _ => .waiting

def reports : Stage → Except ErrorCode Unit → List Callback
  | .connecting, .ok () => [.onConnected]
  | _, .ok () => []
  | .waiting, .error ec => [.onError ec]
  | _, .error ec => [.onError ec, .onDisconnected]

end Stage

namespace Transport

variable {κ β : Type} {t u : Transport κ β}

theorem others_nil_iff : t.others = [] ↔ ∀ op ∈ t.socket.outstanding, op.message? ≠ none := by
  simp [others, Socket.outstanding, kinds]

theorem others_nil_of_outstanding (idle : t.others = [])
    (same : u.socket.outstanding = t.socket.outstanding) : u.others = [] := by
  rw [others_nil_iff] at idle ⊢
  rwa [same]

theorem others_close (idle : t.others = []) : t.close.state.others = [] :=
  others_nil_of_outstanding idle t.outstanding_close

theorem others_start (idle : t.others = []) {op : SocketOp κ} (other : op.message? = none)
    (opened : t.isOpen = true) (started : u.socket = t.socket.start op) :
    u.others = [⟨op, none⟩] := by
  have isOpen : t.socket.isOpen = true := opened
  rw [others, started, Socket.start, if_pos isOpen, Proactor.start, List.filter_append]
  change t.others ++ _ = _
  rw [idle]
  simp [other]

end Transport

namespace Client

variable {c : Client} {stage : Stage}

/-- All that is outstanding, apart from writes, is what the client is doing. -/
inductive Doing (c : Client) : Stage → Prop where
  | waiting (timer : Nat) (expired : Option Unit)
      (waits : c.timers.waits = [⟨timer, expired.map .ok⟩]) (resolver : c.transport.resolver = [])
      (others : c.transport.others = []) (closed : c.transport.isOpen = false) : Doing c .waiting
  | resolving (query : Query) (result : Option Resolution) (waits : c.timers.waits = [])
      (resolver : c.transport.resolver = [⟨query, result⟩]) (others : c.transport.others = [])
      (closed : c.transport.isOpen = false) : Doing c .resolving
  | connecting (query : Query) (result : Option (Completion Arrived)) (waits : c.timers.waits = [])
      (resolver : c.transport.resolver = [])
      (others : c.transport.others = [⟨.own (.asyncConnect query), result⟩])
      (opened : c.transport.isOpen = true) : Doing c .connecting
  | receiving (result : Option (Completion Arrived)) (waits : c.timers.waits = [])
      (resolver : c.transport.resolver = []) (others : c.transport.others = [⟨.asyncReceive, result⟩])
      (opened : c.transport.isOpen = true) : Doing c .receiving

theorem doing_create (query : Query) : (create query).Doing .resolving :=
  .resolving query none rfl rfl rfl rfl

theorem Doing.same (doing : c.Doing stage) {d : Client} (waits : d.timers.waits = c.timers.waits)
    (resolver : d.transport.resolver = c.transport.resolver)
    (others : d.transport.others = c.transport.others)
    (isOpen : d.transport.isOpen = c.transport.isOpen) : d.Doing stage := by
  cases doing with
  | waiting timer expired hw hr ho closed =>
    exact .waiting timer expired (waits.trans hw) (resolver.trans hr) (others.trans ho)
      (isOpen.trans closed)
  | resolving query result hw hr ho closed =>
    exact .resolving query result (waits.trans hw) (resolver.trans hr) (others.trans ho)
      (isOpen.trans closed)
  | connecting query result hw hr ho opened =>
    exact .connecting query result (waits.trans hw) (resolver.trans hr) (others.trans ho)
      (isOpen.trans opened)
  | receiving result hw hr ho opened =>
    exact .receiving result (waits.trans hw) (resolver.trans hr) (others.trans ho)
      (isOpen.trans opened)

/-- The result that a handler is given, other than that of a write. -/
def results (c : Client) (e : Event) : List (Except ErrorCode Unit) :=
  if c.fault.isSome then []
  else
    match e with
    | .run i =>
      match ready c.transport.socket.ops i with
      | none | some (.asyncWrite _, _) => []
      | some (_, r) => [r.map fun _ => ()]
    | .runResolve i => ((ready c.transport.resolver i).map Prod.snd).toList
    | .runWait i => ((ready c.timers.waits i).map Prod.snd).toList
    | _ => []

structure Moves (c : Client) (stage : Stage) (results : List (Except ErrorCode Unit))
    (d : Client) : Prop where
  doing : d.Doing (Machine.run Stage.next stage results)
  calls : d.calls = c.calls ++ collect Stage.next Stage.reports stage results

theorem Moves.stays {d : Client} (doing : d.Doing stage) (calls : d.calls = c.calls) :
    c.Moves stage [] d := ⟨doing, calls.trans (List.append_nil _).symm⟩

theorem Moves.goes {d : Client} {r : Except ErrorCode Unit} (doing : d.Doing (stage.next r))
    (calls : d.calls = c.calls ++ stage.reports r) : c.Moves stage [r] d :=
  ⟨doing, calls.trans (congrArg (c.calls ++ ·) (List.append_nil _).symm)⟩

theorem doing_failed {t : ClientTransport Arrived} (waits : c.timers.waits = [])
    (resolver : t.resolver = []) (others : t.others = []) (ec : ErrorCode) :
    (c.after ⟨t.close.state, [.onError ec, .onDisconnected], none⟩).Doing .waiting := by
  refine .waiting c.timers.made none ?_ resolver (Transport.others_close others)
    (Transport.isOpen_close t.toTransport)
  change c.timers.rearm.waits = _
  simp [Timers.rearm, waits, cancelWhere, start]

theorem write_of_idle {t : ClientTransport Arrived} (idle : t.others = []) {i : Nat}
    {op : SocketOp ConnectOp} {r : Completion Arrived}
    (h : ready t.socket.ops i = some (op, r)) : ∃ msg, op = .asyncWrite msg := by
  have outstanding : op ∈ t.socket.outstanding := List.mem_map_of_mem (f := Op.kind) (ready_mem h)
  have written := Transport.others_nil_iff.mp idle op outstanding
  cases op with
  | asyncWrite msg => exact ⟨msg, rfl⟩
  | _ => exact absurd rfl written

theorem Doing.moves_written (doing : c.Doing stage) {i : Nat} {msg : Message}
    {bytes : List Arrived} (h : ready c.transport.socket.ops i = some (.asyncWrite msg, .ok bytes)) :
    c.Moves stage [] (c.act (.run i)) := by
  simp only [act, h]
  have silent : ((c.taking i).handle (.asyncWrite msg) (.ok bytes)).calls = [] :=
    Transport.onWritten_ok_calls _ bytes
  have quiet : ∀ ec, .onError ec ∉ ((c.taking i).handle (.asyncWrite msg) (.ok bytes)).calls := by
    simp [silent]
  refine .stays (doing.same ?_ ?_ ?_ ?_) ?_
  · rw [after_timers_quiet c quiet]
  · rw [after_transport]
    rfl
  · rw [after_transport]
    exact (Transport.others_onWritten_ok _ bytes).trans (Transport.others_take_write h)
  · rw [after_transport]
    exact Attempts.isOpen_handle (c.taking i) (.asyncWrite msg) bytes
  · rw [after_calls, silent, List.append_nil]

theorem doing_received (waits : c.timers.waits = []) (resolver : c.transport.resolver = [])
    {i : Nat} (idle : (c.transport.take i).others = []) (opened : c.transport.isOpen = true)
    {op : SocketOp ConnectOp} (other : op.message? = none) (bytes : List Arrived) :
    (c.after ((c.taking i).handle op (.ok bytes))).Doing .receiving := by
  have quiet : ∀ ec, .onError ec ∉ ((c.taking i).handle op (.ok bytes)).calls :=
    fun ec called => by cases ClientTransport.handle_ok_calls _ _ _ _ called
  have started := ((c.taking i).handle_ok_opened bytes opened other).2
  refine .receiving none ?_ ?_ ?_ ?_
  · rw [after_timers_quiet c quiet, waits]
  · rw [after_transport]
    cases op <;> exact resolver
  · rw [after_transport]
    exact Transport.others_start (t := c.transport.take i) idle rfl opened started
  · rw [after_transport]
    exact (Attempts.isOpen_handle (c.taking i) op bytes).trans opened

theorem moves_pursuit {i : Nat} {op : SocketOp ConnectOp} (r : Completion Arrived)
    (waits : c.timers.waits = []) (resolver : c.transport.resolver = [])
    (idle : (c.transport.take i).others = []) (opened : c.transport.isOpen = true)
    (other : op.message? = none) (up : stage.next (.ok ()) = .receiving)
    (calls : ∀ bytes, ((c.taking i).handle op (.ok bytes)).calls = stage.reports (.ok ()))
    (down : ∀ ec, stage.next (.error ec) = .waiting)
    (reports : ∀ ec, stage.reports (.error ec) = [.onError ec, .onDisconnected]) :
    c.Moves stage [r.map fun _ => ()] (c.after ((c.taking i).handle op r)) := by
  cases r with
  | error ec =>
    rw [ClientTransport.handle_error]
    refine .goes (r := .error ec) ?_ ((after_calls _ _).trans (by rw [reports ec]))
    rw [down ec]
    exact doing_failed (t := c.taking i) waits resolver idle ec
  | ok bytes =>
    refine .goes (r := .ok ()) ?_ ((after_calls _ _).trans (by rw [calls bytes]))
    rw [up]
    exact doing_received waits resolver idle opened other bytes

theorem Doing.moves_other (doing : c.Doing stage) {i : Nat} {op : SocketOp ConnectOp}
    {r : Completion Arrived} (h : ready c.transport.socket.ops i = some (op, r))
    (other : ∀ msg, op ≠ .asyncWrite msg) :
    c.Moves stage [r.map fun _ => ()] (c.act (.run i)) := by
  have written : ¬ ∃ msg, op = .asyncWrite msg := fun ⟨msg, same⟩ => other msg same
  simp only [act, h]
  cases doing with
  -- before the connect only writes of an earlier connection are left on the socket
  | waiting timer expired waits resolver others closed => exact absurd (write_of_idle others h) written
  | resolving query result waits resolver others closed =>
    exact absurd (write_of_idle others h) written
  | connecting query result waits resolver others opened =>
    rcases Transport.others_take others h with ⟨same, idle⟩ | ⟨write, -⟩
    · obtain ⟨rfl, -⟩ := Op.mk.inj same
      exact moves_pursuit r waits resolver idle opened rfl rfl
        (ClientTransport.calls_handle_ok (c.taking i) _) (fun _ => rfl) fun _ => rfl
    · exact absurd write written
  | receiving result waits resolver others opened =>
    rcases Transport.others_take others h with ⟨same, idle⟩ | ⟨write, -⟩
    · obtain ⟨rfl, -⟩ := Op.mk.inj same
      exact moves_pursuit r waits resolver idle opened rfl rfl
        (ClientTransport.calls_handle_ok (c.taking i) _) (fun _ => rfl) fun _ => rfl
    · exact absurd write written

theorem Doing.moves_runResolve (doing : c.Doing stage) {i : Nat} {query : Query} {r : Resolution}
    (h : ready c.transport.resolver i = some (query, r)) :
    c.Moves stage [r] (c.act (.runResolve i)) := by
  have nothing : c.transport.resolver ≠ [] := by
    intro empty
    rw [empty] at h
    cases h
  simp only [act, h]
  cases doing with
  | resolving query' result waits resolver others closed =>
    rw [resolver] at h
    obtain ⟨same, erased⟩ := ready_single h
    rw [resolver, erased]
    cases r with
    | error ec =>
      rw [ClientTransport.onResolve_error]
      exact .goes (doing_failed (t := { c.transport with resolver := [] }) waits rfl others ec)
        (after_calls _ _)
    | ok u =>
      refine .goes (.connecting query none waits rfl ?_ rfl) (List.append_nil _).symm
      have idle : (c.transport.toTransport.reopen).others = [] :=
        Transport.others_nil_of_outstanding others (Socket.outstanding_reopen _)
      exact Transport.others_start idle rfl rfl rfl
  | waiting timer expired waits resolver others closed => exact absurd resolver nothing
  | connecting query' result waits resolver others opened => exact absurd resolver nothing
  | receiving result waits resolver others opened => exact absurd resolver nothing

theorem Doing.moves_runWait (doing : c.Doing stage) {i timer : Nat} {r : Except ErrorCode Unit}
    (h : ready c.timers.waits i = some (timer, r)) :
    c.Moves stage [r] (c.act (.runWait i)) := by
  have nothing : c.timers.waits ≠ [] := by
    intro empty
    rw [empty] at h
    cases h
  simp only [act, h]
  cases doing with
  | waiting timer' expired waits resolver others closed =>
    rw [waits] at h
    obtain ⟨same, erased⟩ := ready_single h
    rw [waits, erased]
    cases r with
    | error ec => cases expired <;> cases (Op.mk.inj same).2
    | ok u =>
      refine .goes (.resolving c.transport.query none rfl ?_ others closed)
        (List.append_nil _).symm
      simp [onWait, ClientTransport.open', resolver, Proactor.cancel, start]
  | resolving query result waits resolver others closed => exact absurd waits nothing
  | connecting query result waits resolver others opened => exact absurd waits nothing
  | receiving result waits resolver others opened => exact absurd waits nothing

theorem Doing.finish (doing : c.Doing stage) (i : Nat) (r : Except ErrorCode (List UInt8)) :
    (c.act (.finish i r)).Doing stage := by
  have idle : c.transport.others = [] → (c.act (.finish i r)).transport.others = [] :=
    fun none => Transport.others_nil_of_outstanding none (Socket.outstanding_finish _ _ _)
  have single : ∀ {o}, c.transport.others = [o] →
      ∃ result, (c.act (.finish i r)).transport.others = [⟨o.kind, result⟩] := by
    intro o others
    rcases Transport.others_finish others i (r.map c.arrive) with ⟨-, settled⟩ | ⟨-, same⟩
    · exact ⟨_, settled⟩
    · exact ⟨_, same⟩
  cases doing with
  | waiting timer expired waits resolver others closed =>
    exact .waiting timer expired waits resolver (idle others) closed
  | resolving query result waits resolver others closed =>
    exact .resolving query result waits resolver (idle others) closed
  | connecting query result waits resolver others opened =>
    obtain ⟨result, others⟩ := single others
    exact .connecting query result waits resolver others opened
  | receiving result waits resolver others opened =>
    obtain ⟨result, others⟩ := single others
    exact .receiving result waits resolver others opened

theorem Doing.resolved (doing : c.Doing stage) (i : Nat) (r : Resolution) :
    (c.act (.resolved i r)).Doing stage := by
  have empty : c.transport.resolver = [] → (c.act (.resolved i r)).transport.resolver = [] := by
    intro none
    simp [act, none, Proactor.finish]
  cases doing with
  | resolving query result waits resolver others closed =>
    have resolver' : (c.act (.resolved i r)).transport.resolver =
        Proactor.finish i r [⟨query, result⟩] := congrArg (Proactor.finish i r) resolver
    rcases finish_single ⟨query, result⟩ i r with same | settled
    · exact .resolving query result waits (resolver'.trans same) others closed
    · exact .resolving query _ waits (resolver'.trans settled) others closed
  | waiting timer expired waits resolver others closed =>
    exact .waiting timer expired waits (empty resolver) others closed
  | connecting query result waits resolver others opened =>
    exact .connecting query result waits (empty resolver) others opened
  | receiving result waits resolver others opened =>
    exact .receiving result waits (empty resolver) others opened

theorem Doing.expire (doing : c.Doing stage) (i : Nat) : (c.act (.expire i)).Doing stage := by
  have empty : c.timers.waits = [] → (c.act (.expire i)).timers.waits = [] := by
    intro none
    simp [act, none, Proactor.finish]
  cases doing with
  | waiting timer expired waits resolver others closed =>
    have waits' : (c.act (.expire i)).timers.waits =
        Proactor.finish i (Except.ok ()) [⟨timer, expired.map Except.ok⟩] := by
      rw [← waits]
      rfl
    rcases finish_single ⟨timer, expired.map Except.ok⟩ i (Except.ok ()) with same | settled
    · exact .waiting timer expired (waits'.trans same) resolver others closed
    · refine .waiting timer (some ()) (waits'.trans (settled.trans ?_)) resolver others closed
      cases expired <;> rfl
  | resolving query result waits resolver others closed =>
    exact .resolving query result (empty waits) resolver others closed
  | connecting query result waits resolver others opened =>
    exact .connecting query result (empty waits) resolver others opened
  | receiving result waits resolver others opened =>
    exact .receiving result (empty waits) resolver others opened

theorem Doing.nextEndpoint (doing : c.Doing stage) (i : Nat) :
    (c.act (.nextEndpoint i)).Doing stage := by
  simp only [act, ClientTransport.nextEndpoint]
  split
  · rename_i query running
    have idle_absurd : c.transport.others ≠ [] := by
      intro idle
      have mem : .own (.asyncConnect query) ∈ c.transport.socket.outstanding :=
        List.mem_map_of_mem (f := Op.kind) (List.mem_of_getElem? running)
      exact Transport.others_nil_iff.mp idle _ mem rfl
    cases doing with
    | waiting timer expired waits resolver others closed => exact absurd others idle_absurd
    | resolving query result waits resolver others closed => exact absurd others idle_absurd
    | connecting query' result waits resolver others opened =>
      obtain ⟨-, idle⟩ := Transport.others_erase others running rfl
      have reopened : (c.transport.take i).reopen.others = [] :=
        Transport.others_nil_of_outstanding idle (Socket.outstanding_reopen _)
      exact .connecting query none waits resolver (Transport.others_start reopened rfl rfl rfl) rfl
    | receiving result waits resolver others opened =>
      obtain ⟨same, -⟩ := Transport.others_erase others running rfl
      cases same
  · exact doing

theorem Doing.step (doing : c.Doing stage) {e : Event} (alone : c.branches e = []) :
    c.Moves stage (c.results e) (c.step e) := by
  by_cases dead : c.fault ≠ none
  · have nothing : c.results e = [] := if_pos (Option.isSome_iff_ne_none.mpr dead)
    rw [step_dead dead, nothing]
    exact .stays doing rfl
  have running := not_not.mp dead
  rw [step_running running]
  simp only [results, running, Option.isSome_none, Bool.false_eq_true, if_false]
  cases e with
  | connectTo query => cases alone
  | send frame =>
    exact .stays (doing.same rfl rfl (Transport.others_write _ frame)
      (Attempts.isOpen_write c.transport frame)) rfl
  | update =>
    obtain ⟨transport, calls⟩ := update_same c
    refine .stays (doing.same ?_ ?_ ?_ ?_) calls
    · exact congrArg Timers.waits (update_timers c)
    all_goals simp only [act, transport]
  | read =>
    obtain ⟨resolver, socket, calls, -⟩ := read_same c
    refine .stays (doing.same ?_ resolver ?_ (congrArg Socket.isOpen socket)) calls
    · exact congrArg Timers.waits (read_timers c)
    · exact congrArg (fun s => s.ops.filter fun o => o.kind.message?.isNone) socket
  | finish i r => exact .stays (doing.finish i r) rfl
  | nextEndpoint i => exact .stays (doing.nextEndpoint i) rfl
  | resolved i r => exact .stays (doing.resolved i r) rfl
  | expire i => exact .stays (doing.expire i) rfl
  | run i =>
    cases h : ready c.transport.socket.ops i with
    | none =>
      simp only [act, h]
      exact .stays doing rfl
    | some x =>
      obtain ⟨op, r⟩ := x
      cases op with
      | asyncWrite msg =>
        cases r with
        | error ec => simp [branches, h] at alone
        | ok bytes =>
          simp only [h]
          exact doing.moves_written h
      | _ =>
        simp only [h]
        exact doing.moves_other h (by simp)
  | runResolve i =>
    cases h : ready c.transport.resolver i with
    | none =>
      simp only [act, h]
      exact .stays doing rfl
    | some x =>
      simp only [h, Option.map_some, Option.toList_some]
      exact doing.moves_runResolve h
  | runWait i =>
    cases h : ready c.timers.waits i with
    | none =>
      simp only [act, h]
      exact .stays doing rfl
    | some x =>
      simp only [h, Option.map_some, Option.toList_some]
      exact doing.moves_runWait h

/-- As long as `connect_to` is not called and no write fails, the client waits, resolves, connects
and receives, one after the other; it is never after a connection in two ways at once, and its user
hears of what becomes of each of these and of nothing else. -/
theorem does_one_thing (query : Query) (es : List Event)
    (alone : Along step (fun c e => c.branches e = []) (create query) es) :
    let results := collect step results (create query) es
    (run step (create query) es).Doing (run Stage.next .resolving results) ∧
      (run step (create query) es).calls =
        collect Stage.next Stage.reports .resolving results := by
  refine run_collected (I := fun (c : Client) (rs : List (Except ErrorCode Unit)) =>
    c.Doing (run Stage.next .resolving rs) ∧
      c.calls = collect Stage.next Stage.reports .resolving rs)
    (h := []) (fun c e rs kept alone => ?_) ⟨doing_create query, rfl⟩ alone
  obtain ⟨doing, calls⟩ := kept.1.step alone
  rw [run_append, collect_append, ← kept.2]
  exact ⟨doing, calls⟩

theorem does_one_thing_again :
    let es : List Event := connecting ++ [.send [0, 0, 0, 0], .finish 1 (.ok []), .run 1,
      .finish 0 (.error .eof), .run 0, .expire 0, .runWait 0] ++ connecting
    (run step (create home) es).Doing .receiving ∧
      (run step (create home) es).calls =
        [.onConnected, .onError .eof, .onDisconnected, .onConnected] :=
  does_one_thing home _ ⟨rfl, rfl, rfl, rfl, rfl, rfl, rfl, rfl, rfl, rfl, rfl, rfl, rfl, rfl, rfl,
    trivial⟩

end Client

end ThriftAsio
