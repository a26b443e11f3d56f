import ThriftAsio.OutboundStream
import ThriftAsio.Segmentation

/-! A client on its connection. Whatever it does, a step after which the socket is still open on the
same connection has run no `close()`, and has done one of a few things to the transport. -/

namespace ThriftAsio
open Proactor Asio Machine

namespace Asio.Socket

variable {κ β : Type} {s s' s'' : Socket κ β}

/-- A socket that is open on the connection of an earlier one was open then. -/
structure Later (s s' : Socket κ β) : Prop where
  generation : s.generation ≤ s'.generation
  opened : s'.generation = s.generation → s'.isOpen = true → s.isOpen = true

theorem Later.of_same (generation : s'.generation = s.generation) (isOpen : s'.isOpen = s.isOpen) :
    Later s s' := ⟨Nat.le_of_eq generation.symm, fun _ opened => isOpen ▸ opened⟩

theorem Later.trans (h : Later s s') (h' : Later s' s'') : Later s s'' := by
  refine ⟨Nat.le_trans h.generation h'.generation, fun same opened => ?_⟩
  have first := h.generation
  have second := h'.generation
  exact h.opened (by omega) (h'.opened (by omega) opened)

theorem later_close : Later s s.cancel.close :=
  ⟨Nat.le_refl _, fun _ opened => by simp at opened⟩

theorem later_reopen : Later s s.reopen := by
  refine ⟨Nat.le_succ _, fun same => ?_⟩
  change s.generation + 1 = s.generation at same
  omega

end Asio.Socket

namespace Transport

variable {κ β : Type} {t : Transport κ β} {o : Op (SocketOp κ) (Completion β)}

theorem Matched.take_waiting (matched : t.Matched) {i : Nat} {msg : Message} {r : Completion β}
    (h : ready t.socket.ops i = some (.asyncWrite msg, r)) :
    (t.take i).inFlight = [] ∧ (t.take i).outboundMessages ≠ [] := by
  obtain ⟨front, idle⟩ := matched.take_write h
  refine ⟨idle, fun empty => ?_⟩
  have nothing : t.outboundMessages = [] := empty
  simp [nothing] at front

def others (t : Transport κ β) : Ops (SocketOp κ) (Completion β) :=
  t.socket.ops.filter fun o => o.kind.message?.isNone

theorem mem_of_others (single : t.others = [o]) : o ∈ t.socket.ops := by
  refine List.mem_of_mem_filter (p := fun o => o.kind.message?.isNone) ?_
  change o ∈ t.others
  rw [single]
  exact List.mem_singleton.mpr rfl

theorem others_write (t : Transport κ β) (buf : List UInt8) : (t.write buf).others = t.others := by
  rcases t.write_socket buf with same | ⟨msg, started⟩
  · rw [others, same, others]
  · rw [others, started, others]
    simp only [Socket.start]
    split <;> simp [Proactor.start, startFailed, SocketOp.message?]

theorem others_onWritten_ok (t : Transport κ β) (bytes : List β) :
    (t.onWritten (.ok bytes)).state.others = t.others := by
  rcases t.onWritten_ok_socket bytes with same | ⟨msg, started⟩
  · rw [others, same, others]
  · rw [others, started, others]
    simp only [Socket.start]
    split <;> simp [Proactor.start, startFailed, SocketOp.message?]

theorem others_finish (single : t.others = [o]) (i : Nat) (r : Completion β) :
    (t.socket.ops[i]? = some o ∧ (t.finish i r).others = [o.settle r]) ∨
      (t.socket.ops[i]? ≠ some o ∧ (t.finish i r).others = [o]) := by
  cases hi : t.socket.ops[i]? with
  | none =>
    have same : (t.finish i r).others = t.others := by
      simp only [others, finish, Socket.finish, finish_of_none hi]
    exact .inr ⟨by simp, same.trans single⟩
  | some o' =>
    obtain ⟨before, after, hops, hfinish⟩ := finish_split hi r
    have finished : (t.finish i r).others =
        (before ++ o'.settle r :: after).filter fun o => o.kind.message?.isNone := by
      rw [← hfinish]
      rfl
    rw [others, hops] at single
    rw [finished]
    rw [List.filter_append, List.filter_cons] at single ⊢
    rw [settle_kind]
    split at single
    · rename_i other
      rw [if_pos other]
      obtain ⟨hb, rfl, ha⟩ : before.filter (fun o => o.kind.message?.isNone) = [] ∧ o' = o ∧
          after.filter (fun o => o.kind.message?.isNone) = [] := by
        simpa [List.append_eq_singleton_iff] using single
      rw [hb, ha]
      exact .inl ⟨rfl, rfl⟩
    · rename_i write
      rw [if_neg write]
      refine .inr ⟨fun same => write ?_, single⟩
      obtain rfl := Option.some.inj same
      have mem : o' ∈ [o'] := List.mem_singleton.mpr rfl
      rw [← single, ← List.filter_append] at mem
      exact (List.mem_filter.mp mem).2

theorem others_erase (single : t.others = [o]) {i : Nat} {o' : Op (SocketOp κ) (Completion β)}
    (h : t.socket.ops[i]? = some o') (other : o'.kind.message? = none) :
    o' = o ∧ (t.take i).others = [] := by
  obtain ⟨before, after, hops, herase⟩ := eraseIdx_split h
  have taken : (t.take i).others =
      (before ++ after).filter fun o => o.kind.message?.isNone := by
    rw [← herase]
    rfl
  rw [others, hops, List.filter_append, List.filter_cons, other] at single
  obtain ⟨hb, same, ha⟩ : before.filter (fun o => o.kind.message?.isNone) = [] ∧ o' = o ∧
      after.filter (fun o => o.kind.message?.isNone) = [] := by
    simpa [List.append_eq_singleton_iff] using single
  exact ⟨same, by rw [taken, List.filter_append, hb, ha, List.nil_append]⟩

theorem others_take_write {i : Nat} {msg : Message} {r : Completion β}
    (h : ready t.socket.ops i = some (.asyncWrite msg, r)) : (t.take i).others = t.others := by
  obtain ⟨before, after, all, rest⟩ := ready_split h
  change (t.socket.ops.eraseIdx i).filter _ = t.socket.ops.filter _
  rw [rest, all, List.filter_append, List.filter_append, List.filter_cons_of_neg]
  simp

theorem others_take (single : t.others = [o]) {i : Nat} {op : SocketOp κ} {r : Completion β}
    (h : ready t.socket.ops i = some (op, r)) :
    (o = ⟨op, some r⟩ ∧ (t.take i).others = []) ∨
      ((∃ msg, op = .asyncWrite msg) ∧ (t.take i).others = [o]) := by
  cases op with
  | asyncWrite msg => exact .inr ⟨⟨msg, rfl⟩, (others_take_write h).trans single⟩
  | _ =>
    obtain ⟨same, idle⟩ := others_erase single (getElem?_of_ready h) rfl
    exact .inl ⟨same.symm, idle⟩

end Transport

namespace ClientTransport

variable {β : Type} {t : ClientTransport β}

theorem later_close (t : ClientTransport β) : t.socket.Later t.close.state.socket := by
  rcases t.toTransport.close_socket with same | closed
  · exact .of_same (congrArg _ same) (congrArg _ same)
  · have socket : t.close.state.socket = t.socket.cancel.close := closed
    rw [socket]
    exact Socket.later_close

theorem later_started {s : Socket (SocketOp ConnectOp) β}
    (h : s = t.socket ∨ ∃ op, s = t.socket.start op) : t.socket.Later s := by
  rcases h with rfl | ⟨op, rfl⟩ <;> exact .of_same rfl rfl

theorem handle_ok_socket (t : ClientTransport β) (op : SocketOp ConnectOp) (bytes : List β) :
    (t.handle op (.ok bytes)).state.socket = t.socket ∨
      ∃ op', (t.handle op (.ok bytes)).state.socket = t.socket.start op' := by
  cases op with
  | asyncReceive => exact .inr ⟨_, rfl⟩
  | asyncWrite msg =>
    rcases Transport.onWritten_ok_socket t.toTransport bytes with same | ⟨msg', started⟩
    · exact .inl same
    · exact .inr ⟨_, started⟩
  | own op =>
    change (Transport.open' _).state.socket = _ ∨ ∃ op', (Transport.open' _).state.socket = _
    simp only [Transport.open']
    split
    · exact .inr ⟨_, rfl⟩
    · exact .inl rfl

theorem later_handle (t : ClientTransport β) (op : SocketOp ConnectOp) (r : Completion β) :
    t.socket.Later (t.handle op r).state.socket := by
  cases r with
  | error ec =>
    rw [handle_error]
    exact t.later_close
  | ok bytes => exact later_started (t.handle_ok_socket op bytes)

end ClientTransport

namespace Client

variable {c : Client}

theorem after_transport (c : Client) (o : Outcome (ClientTransport Arrived)) :
    (c.after o).transport = o.state := by
  obtain ⟨timers, calls, h⟩ := after_eq c o
  rw [h]

theorem onWait_transport (c : Client) (r : Except ErrorCode Unit) :
    (c.onWait r).transport.toTransport = c.transport.toTransport := by
  cases r <;> rfl

theorem later_step (c : Client) (e : Event) :
    c.transport.socket.Later (c.step e).transport.socket := by
  by_cases dead : c.fault ≠ none
  · rw [step_dead dead]
    exact .of_same rfl rfl
  rw [step_running (not_not.mp dead)]
  cases e with
  | connectTo query =>
    rw [act, after_transport]
    exact c.transport.later_close
  | send frame =>
    refine ClientTransport.later_started ?_
    rcases c.transport.toTransport.write_socket frame with same | ⟨msg, started⟩
    · exact .inl same
    · exact .inr ⟨_, started⟩
  | update =>
    rw [act, (update_same c).1]
    exact .of_same rfl rfl
  | read =>
    rw [act, (read_same c).2.1]
    exact .of_same rfl rfl
  | finish i r => exact .of_same rfl rfl
  | nextEndpoint i =>
    simp only [act, ClientTransport.nextEndpoint]
    split
    · exact Socket.later_reopen.trans (.of_same rfl rfl)
    · exact .of_same rfl rfl
  | run i =>
    simp only [act]
    split
    · exact .of_same rfl rfl
    · rename_i op r found
      have taken : c.transport.socket.Later (c.taking i).socket := .of_same rfl rfl
      rw [after_transport]
      exact taken.trans ((c.taking i).later_handle op r)
  | resolved i r => exact .of_same rfl rfl
  | runResolve i =>
    simp only [act]
    split
    · exact .of_same rfl rfl
    · rename_i query r found
      rw [after_transport]
      cases r with
      | error ec =>
        rw [ClientTransport.onResolve_error]
        exact ClientTransport.later_close _
      | ok u => exact Socket.later_reopen.trans (.of_same rfl rfl)
  | expire i => exact .of_same rfl rfl
  | runWait i =>
    simp only [act]
    split
    · exact .of_same rfl rfl
    · rw [onWait_transport]
      exact .of_same rfl rfl

/-- What a receive has brought that its handler has still to see. -/
def landed : Option (Completion Arrived) → List Arrived
  | some (.ok bytes) => bytes
  | _ => []

def lands (c : Client) : Event → List Arrived
  | .finish i (.ok bytes) =>
    match c.transport.socket.ops[i]? with
    | some ⟨.asyncReceive, none⟩ => c.arrive bytes
    | _ => []
  | _ => []

/-- What a step does to the transport of a client that stays on its connection. -/
inductive Moved (c : Client) : Event → Transport ConnectOp Arrived → Prop
  | still {e : Event} (nothing : c.arrivals e = []) (silent : c.lands e = []) :
    Moved c e c.transport.toTransport
  | sent (frame : List UInt8) : Moved c (.send frame) (c.transport.toTransport.write frame)
  | returned (n : Nat) :
    Moved c .read { c.transport.toTransport with
      incommingBytes := c.transport.incommingBytes.drop n }
  | finished (i : Nat) (r : Except ErrorCode (List UInt8)) :
    Moved c (.finish i r) (c.transport.toTransport.finish i (r.map c.arrive))
  | handled {i : Nat} {op : SocketOp ConnectOp} {bytes : List Arrived}
    (ready : ready c.transport.socket.ops i = some (op, .ok bytes)) :
    Moved c (.run i) ((c.taking i).handle op (.ok bytes)).state.toTransport

theorem moved_read (c : Client) : c.Moved .read c.read.transport.toTransport := by
  unfold read
  split
  · exact .still rfl rfl
  · split
    · exact .still rfl rfl
    · rename_i header rest h
      obtain ⟨-, -, rfl⟩ := Transport.read_some h
      exact .returned 4
  · split
    · exact .still rfl rfl
    · rename_i payload rest h
      obtain ⟨-, -, rfl⟩ := Transport.read_some h
      exact .returned _

theorem moved_run {i : Nat} (opened : (c.act (.run i)).transport.isOpen = true) :
    (c.act (.run i)).calls.count .onDisconnected = c.calls.count .onDisconnected ∧
      c.Moved (.run i) (c.act (.run i)).transport.toTransport := by
  cases found : ready c.transport.socket.ops i with
  | none =>
    simp only [act, found]
    exact ⟨trivial, .still (by simp [arrivals, found]) rfl⟩
  | some x =>
    obtain ⟨op, r⟩ := x
    simp only [act, found] at opened ⊢
    rw [after_transport] at opened ⊢
    cases r with
    | error ec =>
      rw [ClientTransport.handle_error] at opened
      have closed := Transport.isOpen_close (c.taking i).toTransport
      exact absurd opened (by simp only [ClientTransport.close, ClientTransport.base, closed]; simp)
    | ok bytes =>
      have calls := ClientTransport.handle_ok_calls (c.taking i) op bytes
      have silent : Callback.onDisconnected ∉ ((c.taking i).handle op (.ok bytes)).calls :=
        fun mem => by cases calls _ mem
      refine ⟨?_, .handled found⟩
      rw [after_calls, List.count_append, List.count_eq_zero.mpr silent, Nat.add_zero]

theorem moved_step (running : c.fault = none) {e : Event}
    (opened : (c.step e).transport.isOpen = true)
    (same : (c.step e).transport.socket.generation = c.transport.socket.generation) :
    c.StaysUp e ∧ c.Moved e (c.step e).transport.toTransport := by
  unfold StaysUp
  rw [step_running running] at opened same ⊢
  cases e with
  | connectTo query =>
    rw [act, after_transport] at opened
    have closed := Transport.isOpen_close c.transport.toTransport
    exact absurd opened (by simp [ClientTransport.connectTo, ClientTransport.open',
      ClientTransport.close, ClientTransport.base, closed])
  | send frame => exact ⟨rfl, .sent frame⟩
  | update =>
    obtain ⟨transport, calls⟩ := update_same c
    rw [act, transport, calls]
    exact ⟨rfl, .still rfl rfl⟩
  | read =>
    rw [act, read_calls]
    exact ⟨rfl, moved_read c⟩
  | finish i r => exact ⟨rfl, .finished i r⟩
  | nextEndpoint i =>
    refine ⟨rfl, ?_⟩
    simp only [act, ClientTransport.nextEndpoint] at same ⊢
    split at same
    · change c.transport.socket.generation + 1 = _ at same
      omega
    · exact .still rfl rfl
  | run i => exact moved_run opened
  | resolved i r => exact ⟨rfl, .still rfl rfl⟩
  | runResolve i =>
    cases found : ready c.transport.resolver i with
    | none =>
      simp only [act, found]
      exact ⟨trivial, .still rfl rfl⟩
    | some x =>
      obtain ⟨query, r⟩ := x
      simp only [act, found] at opened same
      rw [after_transport] at opened same
      cases r with
      | error ec =>
        rw [ClientTransport.onResolve_error] at opened
        have closed := Transport.isOpen_close c.transport.toTransport
        exact absurd opened (by simp [ClientTransport.close, ClientTransport.base, closed])
      | ok u =>
        change c.transport.socket.generation + 1 = _ at same
        omega
  | expire i => exact ⟨rfl, .still rfl rfl⟩
  | runWait i =>
    cases found : ready c.timers.waits i with
    | none =>
      simp only [act, found]
      exact ⟨trivial, .still rfl rfl⟩
    | some x =>
      obtain ⟨timer, ec | u⟩ := x
      · simp only [act, found]
        exact ⟨by simp [onWait, onCallback, onError, reconnectIn], .still rfl rfl⟩
      · simp only [act, found]
        exact ⟨rfl, .still rfl rfl⟩

theorem Moved.accepted {e : Event} {t : Transport ConnectOp Arrived} (h : c.Moved e t)
    (other : ∀ frame, e ≠ .send frame) : t.accepted = c.transport.accepted := by
  cases h with
  | still => rfl
  | sent frame => exact absurd rfl (other frame)
  | returned n => rfl
  | finished i r => rfl
  | @handled i op bytes found =>
    cases op with
    | asyncReceive => exact Transport.accepted_onReceive_ok (c.taking i).toTransport bytes
    | asyncWrite msg => exact Transport.accepted_onWritten_ok (c.taking i).toTransport bytes
    | own op => exact Transport.accepted_open (c.taking i).toTransport

theorem Moved.matched {e : Event} {t : Transport ConnectOp Arrived} (h : c.Moved e t)
    (matched : c.transport.Matched) : t.Matched := by
  cases h with
  | still => exact matched
  | sent frame => exact matched.write frame
  | returned n => exact matched
  | finished i r => simpa [Transport.Matched] using matched
  | @handled i op bytes found =>
    have taken : op.message? = none → (c.transport.take i).Matched := by
      intro other
      rw [Transport.Matched, Transport.inFlight_take found other]
      exact matched
    cases op with
    | asyncReceive =>
      change ((c.transport.take i).onReceive (.ok bytes)).state.Matched
      rw [Transport.Matched, Transport.inFlight_onReceive_ok]
      exact taken rfl
    | asyncWrite msg =>
      obtain ⟨idle, waiting⟩ := matched.take_waiting found
      exact (Transport.onWritten_ok_matched idle waiting bytes).1
    | own op =>
      change (c.transport.take i).open'.state.Matched
      rw [Transport.Matched, Transport.inFlight_open, Transport.outboundMessages_open]
      exact taken rfl

theorem Moved.receives {e : Event} {t : Transport ConnectOp Arrived} (h : c.Moved e t)
    {r : Option (Completion Arrived)} (single : c.transport.others = [⟨.asyncReceive, r⟩])
    (opened : c.transport.isOpen = true) : ∃ r', t.others = [⟨.asyncReceive, r'⟩] ∧
      c.arrivals e ++ landed r' = landed r ++ c.lands e := by
  cases h with
  | still nothing silent => exact ⟨r, single, by rw [nothing, silent, List.append_nil]; rfl⟩
  | sent frame => exact ⟨r, (Transport.others_write _ _).trans single, (List.append_nil _).symm⟩
  | returned n => exact ⟨r, single, (List.append_nil _).symm⟩
  | finished i result =>
    rcases Transport.others_finish single i (result.map c.arrive) with ⟨own, done⟩ | ⟨other, same⟩
    · refine ⟨_, done, ?_⟩
      cases r with
      | some old => cases result <;> simp [arrivals, lands, own, landed, Except.map]
      | none => cases result <;> simp [arrivals, lands, own, landed, Except.map]
    · refine ⟨r, same, ?_⟩
      have running : c.transport.socket.ops[i]? ≠ some ⟨.asyncReceive, none⟩ := by
        intro found
        have mem : (⟨.asyncReceive, none⟩ : Op (SocketOp ConnectOp) (Completion Arrived)) ∈
            c.transport.others := List.mem_filter.mpr ⟨List.mem_of_getElem? found, rfl⟩
        rw [single, List.mem_singleton] at mem
        exact other (mem ▸ found)
      have silent : c.lands (.finish i result) = [] := by
        cases result with
        | error ec => rfl
        | ok bytes =>
          simp only [lands]
      rw [silent, List.append_nil]
      rfl
  | @handled i op bytes found =>
    rcases Transport.others_take single found with ⟨own, none_left⟩ | ⟨⟨msg, rfl⟩, same⟩
    · obtain ⟨rfl, rfl⟩ := Op.mk.inj own
      refine ⟨none, ?_, ?_⟩
      · change ((c.transport.take i).socket.start .asyncReceive).ops.filter _ = _
        have isOpen : (c.transport.take i).socket.isOpen = true := opened
        rw [Transport.others] at none_left
        simp only [Socket.start, isOpen, if_true, Proactor.start, List.filter_append, none_left]
        rfl
      · simp [arrivals, found, landed, lands]
    · refine ⟨r, ?_, by simp [arrivals, found, lands]⟩
      exact (Transport.others_onWritten_ok (c.taking i).toTransport bytes).trans same

end Client

namespace Listener

variable {T : ClientThrift} {l : Listener}

theorem step_transport (T : ClientThrift) (l : Listener) (e : Client.Event) :
    (l.step T e).client.transport = (l.client.step e).transport := by
  by_cases dead : l.client.fault ≠ none
  · rw [step_dead T dead, Client.step_dead dead]
  have running := not_not.mp dead
  rw [step_running T running, Client.step_running running]
  cases e with
  | update => exact (update_same T l).1.trans (Client.update_same l.client).1.symm
  | read => exact (read_same T l).1
  | _ =>
    refine (congrArg Client.transport (other_client l _)).trans ?_
    rw [Client.step_running running]

/-- Where the client stands in the stream of its connection, of which this much has been delivered:
what its receive has brought is still to be handled. -/
def Hearing (messages : Messages) (before : List TalkClientIf) (l : Listener)
    (delivered : Bytes) : Prop :=
  ∃ r received heard, l.client.transport.others = [⟨.asyncReceive, r⟩] ∧
    Hears messages before l received heard ∧
    delivered = received.map Prod.snd ++ (Client.landed r).map Prod.snd

variable {messages : Messages} {before : List TalkClientIf} {delivered : Bytes}

theorem Hearing.mono (ok : l.Hearing messages before delivered) {more : Messages}
    (longer : messages <+: more) : l.Hearing more before delivered := by
  obtain ⟨r, received, heard, single, hears, all⟩ := ok
  exact ⟨r, received, heard, single, ⟨hears.first.trans longer, hears.invoked, hears.held,
    hears.unread, hears.header⟩, all⟩

theorem Hearing.step (ok : l.Hearing messages before delivered)
    (wellFormed : WellFormed T messages) (sent : delivered <+: stream messages)
    {e : Client.Event} (running : l.client.fault = none)
    (opened : (l.step T e).client.transport.isOpen = true)
    (same : (l.step T e).client.transport.socket.generation =
      l.client.transport.socket.generation) :
    (l.step T e).Hearing messages before (delivered ++ (l.client.lands e).map Prod.snd) := by
  obtain ⟨r, received, heard, single, hears, rfl⟩ := ok
  rw [step_transport] at opened same
  obtain ⟨up, moved⟩ := Client.moved_step running opened same
  have isOpen : l.client.transport.isOpen = true := (l.client.later_step e).opened same opened
  obtain ⟨r', single', account⟩ := moved.receives single isOpen
  obtain ⟨more, hears'⟩ := hears.step wellFormed up ((List.prefix_append _ _).trans sent)
  refine ⟨r', _, _, by rw [step_transport]; exact single', hears', ?_⟩
  have came : l.arrivals e = l.client.arrivals e := if_neg (by simp [running])
  simp only [came, ← List.map_append, List.append_assoc, account]

end Listener

end ThriftAsio
