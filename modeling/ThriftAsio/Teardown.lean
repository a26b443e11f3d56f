import ThriftAsio.Reconnect
import ThriftAsio.OutboundStream

/-! What can end an established connection while its peer and the network are well and the
application leaves it alone. Every handler captures only `this`, so whatever an earlier attempt
has left in the event loop acts on the connection that is there when it runs. -/

namespace ThriftAsio
open Proactor Asio Machine

def Reading.header : Reading → List Arrived
  | .payload header => header
  | _ => []

namespace Client

/-- Neither `connect_to()` nor an error that the peer or the network causes on the socket. -/
def Event.Benign : Event → Prop
  | .connectTo _ | .finish _ (.error _) => False
  | _ => True

/-- The step that runs a successful connect's handler: `on_connected` is called. -/
def Establishes (c : Client) (e : Event) : Prop :=
  c.fault = none ∧ c.transport.isOpen = true ∧ ∃ i query bytes, e = .run i ∧
    ready c.transport.socket.ops i = some (.own (.asyncConnect query), .ok bytes)

def received (c : Client) : List Arrived :=
  c.frames.flatten ++ c.reading.header ++ c.transport.incommingBytes

/-- From `c` to `d` the socket was neither closed nor connected anew, `close()` did not run, and
no received byte and no written byte was dropped. -/
structure Keeps (c d : Client) : Prop where
  opened : d.transport.isOpen = true
  connection : d.transport.socket.generation = c.transport.socket.generation
  closes : d.calls.count .onDisconnected = c.calls.count .onDisconnected
  received : c.received <+: d.received
  accepted : c.transport.accepted <+: d.transport.accepted

/-- No reconnect wait, no resolve, no running connect and no failed operation is outstanding. -/
structure NothingLeft (c : Client) : Prop where
  waits : c.timers.waits = []
  resolver : c.transport.resolver = []
  failed : ∀ o ∈ c.transport.socket.ops, ∀ ec, o.result ≠ some (.error ec)
  connect : ∀ o ∈ c.transport.socket.ops, ∀ query,
    o.kind = .own (.asyncConnect query) → o.result ≠ none

theorem Keeps.refl {c : Client} (opened : c.transport.isOpen = true) : Keeps c c :=
  ⟨opened, rfl, rfl, List.prefix_rfl, List.prefix_rfl⟩

theorem Keeps.trans {c d f : Client} (h : Keeps c d) (h' : Keeps d f) : Keeps c f :=
  ⟨h'.opened, h'.connection.trans h.connection, h'.closes.trans h.closes,
    h.received.trans h'.received, h.accepted.trans h'.accepted⟩

theorem ops_start {t : ClientTransport Arrived} (opened : t.isOpen = true)
    {P : Op (SocketOp ConnectOp) (Completion Arrived) → Prop} (h : ∀ o ∈ t.socket.ops, P o)
    {op : SocketOp ConnectOp} (new : P ⟨op, none⟩) : ∀ o ∈ (t.socket.start op).ops, P o := by
  have isOpen : t.socket.isOpen = true := opened
  simp only [Socket.start, isOpen, if_true]
  exact forall_start h new

def Extends (s s' : Socket (SocketOp ConnectOp) Arrived) : Prop :=
  s' = s ∨ ∃ op, (∀ query, op ≠ .own (.asyncConnect query)) ∧ s' = s.start op

theorem NothingLeft.extend {c d : Client} (left : c.NothingLeft)
    (opened : c.transport.isOpen = true) (waits : d.timers = c.timers)
    (resolver : d.transport.resolver = c.transport.resolver)
    (socket : Extends c.transport.socket d.transport.socket)
    (closes : d.calls.count .onDisconnected = c.calls.count .onDisconnected)
    (received : c.received <+: d.received)
    (accepted : c.transport.accepted <+: d.transport.accepted) :
    d.NothingLeft ∧ Keeps c d := by
  have isOpen : d.transport.isOpen = true := by
    rcases socket with h | ⟨op, -, h⟩ <;> simpa [Transport.isOpen, h] using opened
  have connection : d.transport.socket.generation = c.transport.socket.generation := by
    rcases socket with h | ⟨op, -, h⟩ <;> simp [h]
  refine ⟨⟨by rw [waits, left.waits], by rw [resolver, left.resolver], ?_, ?_⟩,
    ⟨isOpen, connection, closes, received, accepted⟩⟩
  · rcases socket with h | ⟨op, -, h⟩ <;> rw [h]
    · exact left.failed
    · exact ops_start opened left.failed (by simp)
  · rcases socket with h | ⟨op, other, h⟩ <;> rw [h]
    · exact left.connect
    · exact ops_start opened left.connect fun query h => absurd h (other query)

theorem extends_of_write {s s' : Socket (SocketOp ConnectOp) Arrived}
    (h : s' = s ∨ ∃ msg, s' = s.start (.asyncWrite msg)) : Extends s s' :=
  h.imp_right fun ⟨msg, h⟩ => ⟨.asyncWrite msg, by simp, h⟩

theorem NothingLeft.taking {c : Client} (left : c.NothingLeft) (i : Nat) :
    NothingLeft { c with transport := c.taking i } :=
  ⟨left.waits, left.resolver, forall_eraseIdx left.failed i, forall_eraseIdx left.connect i⟩

theorem keeps_taking {c : Client} (opened : c.transport.isOpen = true) (i : Nat) :
    Keeps c { c with transport := c.taking i } :=
  ⟨opened, rfl, rfl, List.prefix_rfl, List.prefix_rfl⟩

theorem received_update (c : Client) : c.update.received = c.received := by
  unfold update
  split
  · rename_i idle
    split
    · simp [received, idle, Reading.header]
    · rfl
  · rfl

theorem received_read (c : Client) : c.read.received = c.received := by
  unfold read
  split
  · rfl
  · rename_i size
    split
    · rfl
    · rename_i header rest h
      obtain ⟨-, rfl, rfl⟩ := Transport.read_some h
      simp [received, size, Reading.header]
  · rename_i header frame
    split
    · rfl
    · rename_i payload rest h
      obtain ⟨-, rfl, rfl⟩ := Transport.read_some h
      simp [received, frame, Reading.header]

theorem read_same (c : Client) : c.read.transport.resolver = c.transport.resolver ∧
    c.read.transport.socket = c.transport.socket ∧ c.read.calls = c.calls ∧
    c.read.transport.accepted = c.transport.accepted := by
  unfold read
  split
  · exact ⟨rfl, rfl, rfl, rfl⟩
  all_goals
    split
    · exact ⟨rfl, rfl, rfl, rfl⟩
    · rename_i h
      obtain ⟨-, -, rfl⟩ := Transport.read_some h
      exact ⟨rfl, rfl, rfl, rfl⟩

theorem NothingLeft.handle_ok {c : Client} (left : c.NothingLeft)
    (opened : c.transport.isOpen = true) (op : SocketOp ConnectOp) (bytes : List Arrived) :
    let d := c.after (c.transport.handle op (.ok bytes))
    d.NothingLeft ∧ Keeps c d := by
  intro d
  cases op with
  | asyncReceive =>
    have accepted : d.transport.accepted = c.transport.accepted :=
      Transport.accepted_onReceive_ok c.transport.toTransport bytes
    refine left.extend opened rfl rfl (.inr ⟨.asyncReceive, by simp, rfl⟩) rfl ?_
      (accepted ▸ List.prefix_rfl)
    exact ⟨bytes, by simp [received, d, after, ClientTransport.handle, ClientTransport.base,
      Transport.handle, Transport.onReceive]⟩
  | asyncWrite msg =>
    have returned : d = { c with
        transport := { c.transport with
          toTransport := (c.transport.toTransport.onWritten (.ok bytes)).state }
        fault := (c.transport.toTransport.onWritten (.ok bytes)).fault } := by
      simp [d, after, ClientTransport.handle, ClientTransport.base, Transport.handle,
        Transport.onWritten_ok_calls]
    rw [returned]
    refine left.extend opened rfl rfl (extends_of_write (Transport.onWritten_ok_socket _ _)) rfl
      ⟨[], by simp [received]⟩ ?_
    simp only [Transport.accepted_onWritten_ok, List.prefix_rfl]
  | own op =>
    have returned : d = { c with
        transport := { c.transport with socket := c.transport.socket.start .asyncReceive }
        calls := c.calls ++ [.onConnected]
        fault := none } := by
      simp [d, after, ClientTransport.handle, ClientTransport.onConnect, ClientTransport.base,
        Transport.open', opened, onCallback]
    have accepted : d.transport.accepted = c.transport.accepted := by
      rw [returned]
      exact Transport.accepted_start c.transport.toTransport rfl
    rw [returned] at accepted ⊢
    exact left.extend opened rfl rfl (.inr ⟨.asyncReceive, by simp, rfl⟩) (by simp)
      List.prefix_rfl (accepted ▸ List.prefix_rfl)

theorem NothingLeft.step {c : Client} (left : c.NothingLeft)
    (opened : c.transport.isOpen = true) {e : Event} (benign : e.Benign) :
    (c.step e).NothingLeft ∧ Keeps c (c.step e) := by
  by_cases dead : c.fault ≠ none
  · rw [step_dead dead]
    exact ⟨left, .refl opened⟩
  rw [step_running (not_not.mp dead)]
  cases e with
  | connectTo query => exact benign.elim
  | send frame =>
    refine left.extend opened rfl rfl (extends_of_write (Transport.write_socket _ _)) rfl
      ⟨[], by simp [received, act]⟩ ?_
    exact ⟨frame, (Transport.accepted_write _ _).symm⟩
  | update =>
    have same := update_same c
    simp only [act]
    refine left.extend opened (update_timers c) (by rw [same.1]) (.inl (by rw [same.1]))
      (by rw [same.2]) ?_ ?_
    · simp only [received_update, List.prefix_rfl]
    · simp only [same.1, List.prefix_rfl]
  | read =>
    have same := read_same c
    simp only [act]
    refine left.extend opened (read_timers c) same.1 (.inl same.2.1) (by rw [same.2.2.1]) ?_ ?_
    · simp only [received_read, List.prefix_rfl]
    · simp only [same.2.2.2, List.prefix_rfl]
  | finish i r =>
    cases r with
    | error ec => exact benign.elim
    | ok bytes =>
      refine ⟨⟨left.waits, left.resolver, ?_, ?_⟩, ⟨opened, rfl, rfl, List.prefix_rfl,
        List.prefix_rfl⟩⟩
      · refine forall_finish left.failed (fun o ho ec => ?_) i
        have own := ho ec
        cases h : o.result with
        | none => simp [Op.settle, h, Except.map]
        | some r => simpa [Op.settle, h] using own
      · exact forall_finish left.connect (fun o _ query _ => by
          cases h : o.result <;> simp [Op.settle, h]) i
  | nextEndpoint i =>
    have stays : c.transport.nextEndpoint i = c.transport := by
      unfold ClientTransport.nextEndpoint
      split
      · rename_i query h
        exact absurd rfl (left.connect _ (List.mem_of_getElem? h) query rfl)
      · rfl
    simp only [act, stays]
    exact ⟨left, .refl opened⟩
  | run i =>
    simp only [act]
    cases h : ready c.transport.socket.ops i with
    | none => exact ⟨left, .refl opened⟩
    | some found =>
      obtain ⟨op, r⟩ := found
      cases r with
      | error ec => exact absurd rfl (left.failed _ (ready_mem h) ec)
      | ok bytes =>
        obtain ⟨left', kept⟩ := (left.taking i).handle_ok opened op bytes
        exact ⟨left', (keeps_taking opened i).trans kept⟩
  | resolved i r =>
    refine ⟨⟨left.waits, ?_, left.failed, left.connect⟩, ⟨opened, rfl, rfl, List.prefix_rfl,
      List.prefix_rfl⟩⟩
    simp [act, left.resolver, Proactor.finish]
  | runResolve i =>
    have empty : ready c.transport.resolver i = none := by simp [ready, left.resolver]
    simp only [act, empty]
    exact ⟨left, .refl opened⟩
  | expire i =>
    refine ⟨⟨?_, left.resolver, left.failed, left.connect⟩, ⟨opened, rfl, rfl, List.prefix_rfl,
      List.prefix_rfl⟩⟩
    simp [act, left.waits, Proactor.finish]
  | runWait i =>
    have empty : ready c.timers.waits i = none := by simp [ready, left.waits]
    simp only [act, empty]
    exact ⟨left, .refl opened⟩

theorem NothingLeft.keeps {c : Client} (left : c.NothingLeft)
    (opened : c.transport.isOpen = true) {es : List Event} (benign : ∀ e ∈ es, e.Benign) :
    Keeps c (run Client.step c es) := by
  induction es generalizing c with
  | nil => exact .refl opened
  | cons e es ih =>
    obtain ⟨left', kept⟩ := left.step opened (benign e (by simp))
    exact kept.trans (ih left' kept.opened fun e' he => benign e' (by simp [he]))

def Torn (c d : Client) : Prop :=
  d.transport.isOpen = false ∨ d.transport.socket.generation ≠ c.transport.socket.generation

theorem Torn.not_keeps {c d : Client} (torn : Torn c d) : ¬ Keeps c d := by
  intro kept
  rcases torn with closed | other
  · simp [kept.opened] at closed
  · exact other kept.connection

structure Stands (c d : Client) : Prop where
  running : d.fault = none
  connection : d.transport.socket.generation = c.transport.socket.generation

/-- Benign events, from `d` on, that take the connection of `c` down. -/
def Doomed (c d : Client) : Prop :=
  ∃ more : List Event, (∀ e ∈ more, e.Benign) ∧ Torn c (run Client.step d more)

theorem Doomed.before {c d : Client} {e : Event} (benign : e.Benign)
    (doomed : Doomed c (d.step e)) : Doomed c d := by
  obtain ⟨more, all, torn⟩ := doomed
  refine ⟨e :: more, fun e' he => ?_, torn⟩
  rcases List.mem_cons.mp he with rfl | he
  · exact benign
  · exact all e' he

theorem Doomed.of_torn {c d : Client} (torn : Torn c d) : Doomed c d :=
  ⟨[], fun _ h => (by cases h), torn⟩

theorem doomed_of_resolved {c d : Client} (stands : Stands c d) {i : Nat} {query : Query}
    {r : Resolution} (h : ready d.transport.resolver i = some (query, r)) : Doomed c d := by
  refine .before (e := .runResolve i) trivial (.of_torn ?_)
  rw [step_running stands.running]
  simp only [act, h]
  cases r with
  | error ec =>
    refine .inl ?_
    simp only [ClientTransport.onResolve_error]
    exact Transport.isOpen_close _
  | ok u =>
    refine .inr ?_
    change d.transport.socket.generation + 1 ≠ _
    rw [stands.connection]
    omega

theorem doomed_of_resolving {c d : Client} (stands : Stands c d) {o : Op Query Resolution}
    (h : o ∈ d.transport.resolver) : Doomed c d := by
  obtain ⟨query, result⟩ := o
  cases result with
  | some r =>
    obtain ⟨i, hi⟩ := exists_ready h
    exact doomed_of_resolved stands hi
  | none =>
    obtain ⟨i, hi⟩ := List.mem_iff_getElem?.mp h
    refine .before (e := .resolved i (.ok ())) trivial ?_
    rw [step_running stands.running]
    exact doomed_of_resolved (i := i) ⟨stands.running, stands.connection⟩
      (ready_finish hi (.ok ()))

/-- An expired timer opens the transport again. -/
theorem doomed_of_expired {c d : Client} (stands : Stands c d) {i timer : Nat}
    (h : ready d.timers.waits i = some (timer, .ok ())) : Doomed c d := by
  refine .before (e := .runWait i) trivial ?_
  rw [step_running stands.running]
  simp only [act, h, onWait]
  refine doomed_of_resolving (o := ⟨d.transport.query, none⟩)
    ⟨stands.running, stands.connection⟩ ?_
  simp [ClientTransport.open', start]

theorem doomed_of_armed {c d : Client} (stands : Stands c d) {timer : Nat}
    (h : (⟨timer, none⟩ : Timers.Wait) ∈ d.timers.waits) : Doomed c d := by
  obtain ⟨i, hi⟩ := List.mem_iff_getElem?.mp h
  refine .before (e := .expire i) trivial ?_
  rw [step_running stands.running]
  exact doomed_of_expired (i := i) ⟨stands.running, stands.connection⟩ (ready_finish hi (.ok ()))

theorem doomed_of_waiting {c d : Client} (stands : Stands c d) {w : Timers.Wait}
    (h : w ∈ d.timers.waits) : Doomed c d := by
  obtain ⟨timer, result⟩ := w
  match result with
  | none => exact doomed_of_armed stands h
  | some (.ok ()) =>
    obtain ⟨i, hi⟩ := exists_ready h
    exact doomed_of_expired stands hi
  | some (.error ec) =>
    -- the handler of a cancelled wait arms a new timer
    obtain ⟨i, hi⟩ := exists_ready h
    refine .before (e := .runWait i) trivial ?_
    rw [step_running stands.running]
    simp only [act, hi, onWait]
    have armed : (⟨d.timers.made, none⟩ : Timers.Wait) ∈
        start d.timers.made (cancelWhere (fun timer => d.timers.reconnectTimer == some timer)
          (.error .operationAborted) (d.timers.waits.eraseIdx i)) := by
      simp [start]
    exact doomed_of_armed ⟨stands.running, stands.connection⟩ armed

theorem doomed_of_failed {c d : Client} (stands : Stands c d) {op : SocketOp ConnectOp}
    {ec : ErrorCode} (h : ⟨op, some (.error ec)⟩ ∈ d.transport.socket.ops) : Doomed c d := by
  obtain ⟨i, hi⟩ := exists_ready h
  refine .before (e := .run i) trivial (.of_torn (.inl ?_))
  rw [step_running stands.running]
  simp only [act, hi, ClientTransport.handle_error]
  exact Transport.isOpen_close _

theorem doomed_of_connecting {c d : Client} (stands : Stands c d) {query : Query}
    (h : ⟨.own (.asyncConnect query), none⟩ ∈ d.transport.socket.ops) : Doomed c d := by
  obtain ⟨i, hi⟩ := List.mem_iff_getElem?.mp h
  refine .before (e := .nextEndpoint i) trivial (.of_torn (.inr ?_))
  rw [step_running stands.running]
  simp only [act, ClientTransport.nextEndpoint, hi]
  change d.transport.socket.generation + 1 ≠ _
  rw [stands.connection]
  omega

theorem nothingLeft_of_not_doomed {c : Client} (running : c.fault = none)
    (safe : ¬ Doomed c c) : c.NothingLeft := by
  have stands : Stands c c := ⟨running, rfl⟩
  refine ⟨?_, ?_, fun o ho ec failed => ?_, fun o ho query kind pending => ?_⟩
  · exact List.eq_nil_iff_forall_not_mem.mpr fun w hw => safe (doomed_of_waiting stands hw)
  · exact List.eq_nil_iff_forall_not_mem.mpr fun o ho => safe (doomed_of_resolving stands ho)
  · obtain ⟨op, result⟩ := o
    subst failed
    exact safe (doomed_of_failed stands ho)
  · obtain ⟨op, result⟩ := o
    subst kind pending
    exact safe (doomed_of_connecting stands ho)

theorem Establishes.connected {c : Client} {e : Event} (h : c.Establishes e) :
    (c.step e).fault = none ∧ (c.step e).transport.isOpen = true := by
  obtain ⟨running, opened, i, query, bytes, rfl, hi⟩ := h
  have opened' : (c.taking i).isOpen = true := opened
  rw [step_running running]
  simp only [act, hi, ClientTransport.handle, ClientTransport.onConnect, ClientTransport.base,
    Transport.open', after]
  rw [if_pos opened']
  exact ⟨rfl, opened⟩

/-- An established connection that the application and the peer leave alone is never taken down
exactly when nothing of an earlier attempt was left at the moment it was established: no reconnect
wait, no resolve, no running connect and no failed operation. -/
theorem kept_iff_nothingLeft (query : Query) (es : List Event) (e : Event)
    (established : (run step (create query) es).Establishes e) :
    let c := (run step (create query) es).step e
    (∀ more : List Event, (∀ e' ∈ more, e'.Benign) → Keeps c (run step c more)) ↔
      c.NothingLeft := by
  intro c
  obtain ⟨running, opened⟩ := established.connected
  constructor
  · intro kept
    refine nothingLeft_of_not_doomed running ?_
    rintro ⟨more, benign, torn⟩
    exact torn.not_keeps (kept more benign)
  · exact fun left more benign => left.keeps opened benign

theorem first_connection_kept :
    let c := run step (create home) connecting
    ∀ more : List Event, (∀ e ∈ more, e.Benign) → Keeps c (run step c more) :=
  (kept_iff_nothingLeft home [.resolved 0 (.ok ()), .runResolve 0, .finish 0 (.ok [])] (.run 0)
    ⟨rfl, rfl, 0, home, [], rfl, rfl⟩).mpr
    (by
      have receiving : ∀ o ∈ (run step (create home) connecting).transport.socket.ops,
          o = ⟨.asyncReceive, none⟩ := fun o ho => List.mem_singleton.mp ho
      refine ⟨rfl, rfl, fun o ho => ?_, fun o ho => ?_⟩
      · simp [receiving o ho]
      · simp [receiving o ho])

/-- `connect_to` aborts the receive of the first connection; its handler arms the timer, and the
timer takes the second connection down. -/
theorem timer_tears_down_second :
    let es : List Event := connecting ++ [.connectTo home, .run 0, .resolved 0 (.ok ()),
      .runResolve 0, .finish 0 (.ok [])]
    let more : List Event := [.expire 0, .runWait 0, .resolved 0 (.ok ()), .runResolve 0]
    let c := (run step (create home) es).step (.run 0)
    (run step (create home) es).Establishes (.run 0) ∧ (∀ e ∈ more, e.Benign) ∧
      ¬ Keeps c (run step c more) := by
  refine ⟨⟨rfl, rfl, 0, home, [], rfl, rfl⟩, by simp [Event.Benign], ?_⟩
  exact Torn.not_keeps (.inr (by decide))

end Client

end ThriftAsio
