import ThriftAsio.Client
import ThriftAsio.Machine

/-! A client transport with the event loop that runs its handlers: what its user calls, and what
the resolver and the socket complete, comes in any order. -/

namespace ThriftAsio
open Proactor Asio Machine

/-- What has become of the last attempt to connect. -/
inductive Phase where
  | closed
  | connecting
  | established
  deriving DecidableEq, Repr

structure Attempts (β : Type) where
  transport : ClientTransport β
  /-- History: whether the connect under way has succeeded, and `close()` not run since. -/
  phase : Phase
  /-- History: the calls on the event handlers. -/
  calls : List Callback
  fault : Option Fault

namespace Attempts

variable {β : Type}

inductive Event (β : Type) where
  | open'
  | close
  | connectTo (query : Query)
  | write (buf : List UInt8)
  | read (len : Nat)
  | resolved (i : Nat) (r : Resolution)
  | runResolve (i : Nat)
  | finish (i : Nat) (r : Completion β)
  /-- A running `async_connect` whose endpoint has failed goes to the next one. -/
  | nextEndpoint (i : Nat)
  | run (i : Nat)

def create (query : Query) : Attempts β := ⟨.create query, .closed, [], none⟩

def connecting (t : ClientTransport β) (i : Nat) : Bool :=
  match t.socket.ops[i]? with
  | some ⟨.own _, none⟩ => true
  | _ => false

/-- How far the attempt is after an event. Each handler that is given an error runs `close()`. -/
def follow (t : ClientTransport β) (phase : Phase) : Event β → Phase
  | .close | .connectTo _ => .closed
  | .runResolve i =>
    match ready t.resolver i with
    | none => phase
    | some (_, .ok ()) => .connecting
    | some (_, .error _) => .closed
  | .finish i (.ok _) => if connecting t i then .established else phase
  | .nextEndpoint i => if connecting t i then .connecting else phase
  | .run i =>
    match ready t.socket.ops i with
    | some (_, .error _) => .closed
    | _ => phase
  | _ => phase

def onBase (t : ClientTransport β) (f : Transport ConnectOp β → Transport ConnectOp β) :
    ClientTransport β := { t with toTransport := f t.toTransport }

def after (a : Attempts β) (o : Outcome (ClientTransport β)) : Attempts β :=
  { a with transport := o.state, calls := a.calls ++ o.calls, fault := o.fault }

def act (a : Attempts β) : Event β → Attempts β
  | .open' => { a with transport := a.transport.open' }
  | .close => a.after a.transport.close
  | .connectTo query => a.after (a.transport.connectTo query)
  | .write buf => { a with transport := onBase a.transport (·.write buf) }
  | .read len =>
    match a.transport.toTransport.read len with
    | none => a
    | some (_, rest) => { a with transport := onBase a.transport fun _ => rest }
  | .resolved i r =>
    { a with transport := { a.transport with
        resolver := Proactor.finish i r a.transport.resolver } }
  | .runResolve i =>
    match ready a.transport.resolver i with
    | none => a
    | some (query, r) =>
      a.after (ClientTransport.onResolve
        { a.transport with resolver := a.transport.resolver.eraseIdx i } query r)
  | .finish i r => { a with transport := onBase a.transport (·.finish i r) }
  | .nextEndpoint i => { a with transport := a.transport.nextEndpoint i }
  | .run i =>
    match ready a.transport.socket.ops i with
    | none => a
    | some (op, r) => a.after ((onBase a.transport (·.take i)).handle op r)

def step (a : Attempts β) (e : Event β) : Attempts β :=
  if a.fault.isSome then a
  else { a.act e with phase := follow a.transport a.phase e }

theorem step_running {a : Attempts β} (running : a.fault = none) (e : Event β) :
    a.step e = { a.act e with phase := follow a.transport a.phase e } := by
  simp [step, running]

theorem step_dead {a : Attempts β} (dead : a.fault ≠ none) (e : Event β) : a.step e = a := by
  simp [step, Option.isSome_iff_ne_none, dead]

@[simp] theorem after_transport (a : Attempts β) (o : Outcome (ClientTransport β)) :
    (a.after o).transport = o.state := rfl

theorem forall_socket_start {P : Op (SocketOp ConnectOp) (Completion β) → Prop}
    {s : Socket (SocketOp ConnectOp) β} (h : ∀ o ∈ s.ops, P o) {op : SocketOp ConnectOp}
    (new : ∀ r, P ⟨op, r⟩) : ∀ o ∈ (s.start op).ops, P o := by
  intro o ho
  simp only [Socket.start] at ho
  split at ho
  · exact forall_start h (new none) o ho
  · rcases List.mem_append.mp ho with old | fresh
    · exact h o old
    · rw [List.mem_singleton.mp fresh]
      exact new _

/-- A property of the outstanding operations that is about connects only, and that no result can
break. -/
structure Stable (P : Op (SocketOp ConnectOp) (Completion β) → Prop) : Prop where
  receive : ∀ r, P ⟨.asyncReceive, r⟩
  write : ∀ msg r, P ⟨.asyncWrite msg, r⟩
  settle : ∀ o r, P o → P (o.settle r)

section Stable

variable {P : Op (SocketOp ConnectOp) (Completion β) → Prop} (stable : Stable P)
include stable

theorem Stable.cancel {s : Socket (SocketOp ConnectOp) β} (h : ∀ o ∈ s.ops, P o) :
    ∀ o ∈ s.cancel.ops, P o := by
  intro o ho
  obtain ⟨o', ho', rfl⟩ := List.mem_map.mp ho
  exact stable.settle o' _ (h o' ho')

theorem Stable.close {t : ClientTransport β} (h : ∀ o ∈ t.socket.ops, P o) :
    ∀ o ∈ t.close.state.socket.ops, P o := by
  change ∀ o ∈ (Transport.close _).state.socket.ops, P o
  rcases t.toTransport.close_socket with same | closed
  · rw [same]
    exact h
  · rw [closed]
    exact stable.cancel (stable.cancel h)

theorem Stable.write' {t : ClientTransport β} (h : ∀ o ∈ t.socket.ops, P o) (buf : List UInt8) :
    ∀ o ∈ (t.toTransport.write buf).socket.ops, P o := by
  rcases t.toTransport.write_socket buf with same | ⟨msg, started⟩
  · rw [same]
    exact h
  · rw [started]
    exact forall_socket_start h (stable.write msg)

theorem Stable.asyncConnect {t : ClientTransport β} (h : ∀ o ∈ t.socket.ops, P o) {query : Query}
    (new : P ⟨.own (.asyncConnect query), none⟩) :
    ∀ o ∈ (t.asyncConnect query).socket.ops, P o := forall_start (stable.cancel h) new

theorem Stable.handle {t : ClientTransport β} (h : ∀ o ∈ t.socket.ops, P o)
    (op : SocketOp ConnectOp) (r : Completion β) :
    ∀ o ∈ (t.handle op r).state.socket.ops, P o := by
  cases r with
  | error ec =>
    rw [ClientTransport.handle_error]
    exact stable.close h
  | ok bytes =>
    cases op with
    | asyncReceive => exact forall_socket_start h stable.receive
    | asyncWrite msg =>
      change ∀ o ∈ (Transport.onWritten _ _).state.socket.ops, P o
      rcases t.toTransport.onWritten_ok_socket bytes with same | ⟨msg, started⟩
      · rw [same]
        exact h
      · rw [started]
        exact forall_socket_start h (stable.write msg)
    | own op =>
      change ∀ o ∈ (Transport.open' _).state.socket.ops, P o
      simp only [Transport.open']
      split
      · exact forall_socket_start h stable.receive
      · exact h

theorem Stable.step {a : Attempts β} {e : Event β} (h : ∀ o ∈ a.transport.socket.ops, P o)
    (new : ∀ i query, e = .runResolve i → ready a.transport.resolver i = some (query, .ok ()) →
      P ⟨.own (.asyncConnect query), none⟩) :
    ∀ o ∈ (a.step e).transport.socket.ops, P o := by
  by_cases running : a.fault = none
  · rw [step_running running]
    cases e with
    | open' => exact h
    | close => exact stable.close h
    | connectTo query => exact stable.close h
    | write buf => exact stable.write' h buf
    | read len =>
      simp only [act]
      split
      · exact h
      · rename_i bytes rest enough
        obtain ⟨-, -, rfl⟩ := Transport.read_some enough
        exact h
    | resolved i r => exact h
    | runResolve i =>
      simp only [act]
      split
      · exact h
      · rename_i query r ready
        cases r with
        | error ec => exact stable.close h
        | ok u => exact stable.asyncConnect h (new i query rfl ready)
    | finish i r => exact forall_finish h (fun o ho => stable.settle o _ ho) i
    | nextEndpoint i =>
      simp only [act, ClientTransport.nextEndpoint]
      split
      · rename_i query running
        have old : P ⟨.own (.asyncConnect query), none⟩ := h _ (List.mem_of_getElem? running)
        exact stable.asyncConnect (forall_eraseIdx h i) old
      · exact h
    | run i =>
      simp only [act]
      split
      · exact h
      · exact stable.handle (forall_eraseIdx h i) _ _
  · rw [step_dead running]
    exact h

end Stable

theorem forall_resolver {R : Op Query Resolution → Prop}
    (settle : ∀ o r, R o → R (o.settle r)) {a : Attempts β} {e : Event β}
    (h : ∀ o ∈ a.transport.resolver, R o)
    (asked : e = .open' → R ⟨a.transport.query, none⟩)
    (sent : ∀ query, e = .connectTo query → R ⟨query, none⟩) :
    ∀ o ∈ (a.step e).transport.resolver, R o := by
  have cancelled : ∀ o ∈ Proactor.cancel (.error .operationAborted) a.transport.resolver, R o := by
    intro o ho
    obtain ⟨o', ho', rfl⟩ := List.mem_map.mp ho
    exact settle o' _ (h o' ho')
  by_cases running : a.fault = none
  · rw [step_running running]
    cases e with
    | open' => exact forall_start cancelled (asked rfl)
    | connectTo query => exact forall_start cancelled (sent query rfl)
    | resolved i r => exact forall_finish h (fun o ho => settle o _ ho) i
    | read len =>
      simp only [act]
      split <;> exact h
    | runResolve i =>
      simp only [act]
      split
      · exact h
      · rename_i query r ready
        cases r <;> exact forall_eraseIdx h i
    | nextEndpoint i =>
      simp only [act, ClientTransport.nextEndpoint]
      split <;> exact h
    | run i =>
      simp only [act]
      split
      · exact h
      · rename_i op r ready
        have same : ((onBase a.transport (·.take i)).handle op r).state.resolver =
            a.transport.resolver := by
          cases op with
          | own op => cases r <;> rfl
          | _ => rfl
        intro o ho
        exact h o (same ▸ ho)
    | _ => exact h
  · rw [step_dead running]
    exact h

def Settled (o : Op (SocketOp ConnectOp) (Completion β)) : Prop :=
  ∀ op, o.kind = .own op → o.result ≠ none

theorem stable_settled : Stable (Settled (β := β)) := by
  refine ⟨fun r op h => ?_, fun msg r op h => ?_, fun o r h op kind => ?_⟩
  · cases h
  · cases h
  · have some := h op kind
    cases result : o.result with
    | none => exact absurd result some
    | some r' => simp [Op.settle, result]

/-- The socket is open while the last attempt is under way or established, and a connect runs on
an open socket only. -/
structure Sound (a : Attempts β) : Prop where
  opened : a.transport.isOpen = true ↔ a.phase ≠ .closed
  settled : a.transport.isOpen = false → ∀ o ∈ a.transport.socket.ops, Settled o

theorem sound_create (query : Query) : (create query : Attempts β).Sound :=
  ⟨⟨fun opened => Bool.noConfusion opened, fun under => absurd rfl under⟩,
    fun _ _ ho => absurd ho List.not_mem_nil⟩

theorem settled_close {t : ClientTransport β}
    (h : t.isOpen = false → ∀ o ∈ t.socket.ops, Settled o) :
    ∀ o ∈ t.close.state.socket.ops, Settled o := by
  cases opened : t.isOpen with
  | false => exact stable_settled.close (h opened)
  | true =>
    have closed : t.close.state.socket = t.socket.cancel.close := if_pos opened
    rw [closed]
    intro o ho op kind
    obtain ⟨o', ho', rfl⟩ := List.mem_map.mp ho
    cases result : o'.result <;> simp [Op.settle, result]

theorem isOpen_handle (t : ClientTransport β) (op : SocketOp ConnectOp) (bytes : List β) :
    (t.handle op (.ok bytes)).state.isOpen = t.isOpen := by
  cases op with
  | asyncReceive => rfl
  | asyncWrite msg =>
    change (Transport.onWritten _ _).state.socket.isOpen = t.socket.isOpen
    rcases t.toTransport.onWritten_ok_socket bytes with same | ⟨msg, started⟩
    · rw [same]
    · rw [started, Socket.isOpen_start]
  | own op =>
    change (Transport.open' _).state.socket.isOpen = t.socket.isOpen
    simp only [Transport.open']
    split <;> rfl

theorem isOpen_write (t : ClientTransport β) (buf : List UInt8) :
    (t.toTransport.write buf).isOpen = t.isOpen := by
  change (Transport.write _ _).socket.isOpen = t.socket.isOpen
  rcases t.toTransport.write_socket buf with same | ⟨msg, started⟩
  · rw [same]
  · rw [started, Socket.isOpen_start]

theorem Sound.stay {a : Attempts β} (sound : a.Sound) {e : Event β}
    (isOpen : (a.step e).transport.isOpen = a.transport.isOpen)
    (phase : (a.step e).phase = .closed ↔ a.phase = .closed)
    (quiet : ∀ i query, e = .runResolve i →
      ready a.transport.resolver i ≠ some (query, .ok ())) : (a.step e).Sound := by
  refine ⟨?_, fun closed => stable_settled.step (sound.settled (isOpen ▸ closed)) ?_⟩
  · rw [isOpen, ne_eq, phase]
    exact sound.opened
  · intro i query same found
    exact absurd found (quiet i query same)

theorem Sound.of_closed {a : Attempts β} (closed : a.transport.isOpen = false)
    (phase : a.phase = .closed) (settled : ∀ o ∈ a.transport.socket.ops, Settled o) : a.Sound :=
  ⟨by simp [closed, phase], fun _ => settled⟩

theorem Sound.of_connecting {a : Attempts β} (opened : a.transport.isOpen = true)
    (phase : a.phase = .connecting) : a.Sound :=
  ⟨by simp [opened, phase], fun closed => by simp [closed] at opened⟩

theorem Sound.under {a : Attempts β} (sound : a.Sound) {i : Nat}
    (running : connecting a.transport i = true) : a.transport.isOpen = true := by
  by_contra closed
  rw [Bool.not_eq_true] at closed
  simp only [connecting] at running
  split at running
  · rename_i op found
    exact sound.settled closed _ (List.mem_of_getElem? found) op rfl rfl
  · cases running

section Step

variable {a : Attempts β} (sound : a.Sound) (running : a.fault = none) (i : Nat)
include sound running

theorem Sound.runResolve : (a.step (.runResolve i)).Sound := by
  have stepped := step_running running (.runResolve i)
  cases found : ready a.transport.resolver i with
  | none =>
    refine sound.stay ?_ ?_ fun j query same => ?_
    · rw [stepped]
      simp only [act, found]
    · rw [stepped]
      simp only [follow, found]
    · cases same
      simp [found]
  | some op =>
    obtain ⟨query, r⟩ := op
    rw [stepped]
    cases r with
    | error ec =>
      apply of_closed
      · simp only [act, found]
        exact Transport.isOpen_close _
      · simp only [follow, found]
      · simp only [act, found]
        exact settled_close (t := { a.transport with resolver := _ }) sound.settled
    | ok u =>
      apply of_connecting
      · simp only [act, found]
        rfl
      · simp only [follow, found]

theorem Sound.finish (r : Completion β) : (a.step (.finish i r)).Sound := by
  refine sound.stay (by rw [step_running running]; rfl) ?_ (by simp)
  rw [step_running running]
  by_cases done : connecting a.transport i = true
  · have under : a.phase ≠ .closed := sound.opened.mp (sound.under done)
    cases r <;> simp [follow, done, under]
  · cases r <;> simp [follow, done]

theorem Sound.nextEndpoint : (a.step (.nextEndpoint i)).Sound := by
  have stepped := step_running running (.nextEndpoint i)
  by_cases started : connecting a.transport i = true
  · rw [stepped]
    apply of_connecting
    · simp only [connecting] at started
      split at started
      · rename_i op found
        simp only [act, ClientTransport.nextEndpoint, found]
        rfl
      · cases started
    · simp [follow, started]
  · refine sound.stay ?_ ?_ (by simp)
    · rw [stepped]
      simp only [act, ClientTransport.nextEndpoint]
      split
      · rename_i query found
        simp [connecting, found] at started
      · rfl
    · rw [stepped]
      simp [follow, started]

theorem Sound.run : (a.step (.run i)).Sound := by
  have stepped := step_running running (.run i)
  cases found : ready a.transport.socket.ops i with
  | none =>
    refine sound.stay ?_ ?_ (by simp)
    · rw [stepped]
      simp only [act, found]
    · rw [stepped]
      simp only [follow, found]
  | some op =>
    obtain ⟨op, r⟩ := op
    cases r with
    | error ec =>
      rw [stepped]
      apply of_closed
      · simp only [act, found, after_transport, ClientTransport.handle_error]
        exact Transport.isOpen_close _
      · simp only [follow, found]
      · simp only [act, found, after_transport, ClientTransport.handle_error]
        exact settled_close fun closed => forall_eraseIdx (sound.settled closed) i
    | ok bytes =>
      refine sound.stay ?_ ?_ (by simp)
      · rw [stepped]
        simp only [act, found, after_transport]
        exact isOpen_handle _ op bytes
      · rw [stepped]
        simp only [follow, found]

end Step

theorem Sound.step {a : Attempts β} (sound : a.Sound) (e : Event β) : (a.step e).Sound := by
  by_cases running : a.fault = none
  · have stepped := step_running running e
    cases e with
    | open' => exact sound.stay (by rw [stepped]; rfl) (by rw [stepped]; rfl) (by simp)
    | close =>
      rw [stepped]
      exact of_closed (Transport.isOpen_close _) rfl (settled_close sound.settled)
    | connectTo query =>
      rw [stepped]
      exact of_closed (Transport.isOpen_close _) rfl (settled_close sound.settled)
    | write buf =>
      refine sound.stay ?_ (by rw [stepped]; rfl) (by simp)
      rw [stepped]
      exact isOpen_write _ buf
    | read len =>
      refine sound.stay ?_ (by rw [stepped]; rfl) (by simp)
      rw [stepped]
      simp only [act]
      split
      · rfl
      · rename_i bytes rest enough
        obtain ⟨-, -, rfl⟩ := Transport.read_some enough
        rfl
    | resolved i r => exact sound.stay (by rw [stepped]; rfl) (by rw [stepped]; rfl) (by simp)
    | runResolve i => exact sound.runResolve running i
    | finish i r => exact sound.finish running i r
    | nextEndpoint i => exact sound.nextEndpoint running i
    | run i => exact sound.run running i
  · rw [step_dead running]
    exact sound

theorem sound_run (query : Query) (es : List (Event β)) : (run step (create query) es).Sound :=
  run_invariant (fun _ e sound => sound.step e) (sound_create query) es

end Attempts

namespace Client

/-- What a step of the client is for its transport. -/
def attempt (c : Client) : Event → List (Attempts.Event Arrived)
  | .connectTo query => [.connectTo query]
  | .send frame => [.write frame]
  | .update => []
  | .read =>
    match c.reading with
    | .idle => []
    | .size => [.read 4]
    | .payload header => [.read (arrivedFrames.payloadLength header)]
  | .finish i r => [.finish i (r.map c.arrive)]
  | .nextEndpoint i => [.nextEndpoint i]
  | .run i => [.run i]
  | .resolved i r => [.resolved i r]
  | .runResolve i => [.runResolve i]
  | .expire _ => []
  | .runWait i =>
    match ready c.timers.waits i with
    | some (_, .ok ()) => [.open']
    | _ => []

structure Follows (a : Attempts Arrived) (c : Client) : Prop where
  transport : a.transport = c.transport
  fault : a.fault = c.fault

theorem Follows.after {a : Attempts Arrived} {c : Client} (o : Outcome (ClientTransport Arrived))
    (phase : Phase) : Follows { a.after o with phase := phase } (c.after o) := by
  obtain ⟨timers, calls, after⟩ := c.after_eq o
  rw [after]
  exact ⟨rfl, rfl⟩

theorem Follows.dead {a : Attempts Arrived} {c : Client} (h : Follows a c) (dead : c.fault ≠ none)
    (es : List (Attempts.Event Arrived)) (e : Event) :
    Follows (run Attempts.step a es) (c.step e) := by
  have stays : run Attempts.step a es = a := by
    have dead' : a.fault ≠ none := by rw [h.fault]; exact dead
    induction es with
    | nil => rfl
    | cons e es ih => rw [run_cons, Attempts.step_dead dead', ih]
  rw [stays, step_dead dead]
  exact h

theorem Follows.read {a : Attempts Arrived} {c : Client} (h : Follows a c)
    (running : c.fault = none) : Follows (run Attempts.step a (c.attempt .read)) c.read := by
  have one := fun e => Attempts.step_running (h.fault.trans running) e
  cases reading : c.reading with
  | idle =>
    simp only [attempt, Client.read, reading]
    exact h
  | size =>
    simp only [attempt, Client.read, reading, run_cons, run_nil, one, Attempts.act, h.transport]
    cases c.transport.toTransport.read 4 with
    | none => exact ⟨h.transport, h.fault⟩
    | some found => exact ⟨rfl, h.fault⟩
  | payload header =>
    simp only [attempt, Client.read, reading, run_cons, run_nil, one, Attempts.act, h.transport]
    cases c.transport.toTransport.read (arrivedFrames.payloadLength header) with
    | none => exact ⟨h.transport, h.fault⟩
    | some found => exact ⟨rfl, h.fault⟩

theorem Follows.step {a : Attempts Arrived} {c : Client} (h : Follows a c) (e : Event) :
    Follows (run Attempts.step a (c.attempt e)) (c.step e) := by
  by_cases running : c.fault = none
  · have alive : a.fault = none := h.fault.trans running
    have one := fun e => Attempts.step_running alive e
    rw [step_running running]
    cases e with
    | connectTo query =>
      simp only [attempt, run_cons, run_nil, one, Attempts.act, Client.act, h.transport]
      exact .after _ _
    | update =>
      simp only [attempt, run_nil, Client.act, Client.update]
      split
      · split <;> exact ⟨h.transport, h.fault⟩
      · exact h
    | expire i => exact ⟨h.transport, h.fault⟩
    | read => exact h.read running
    | runWait i =>
      simp only [attempt, Client.act]
      cases ready c.timers.waits i with
      | none => exact h
      | some wait =>
        obtain ⟨timer, r⟩ := wait
        cases r with
        | error ec => exact ⟨h.transport, h.fault⟩
        | ok u =>
          simp only [run_cons, run_nil, one, Attempts.act, h.transport]
          exact ⟨rfl, h.fault⟩
    | run i =>
      simp only [attempt, run_cons, run_nil, one, Attempts.act, Client.act, h.transport]
      cases ready c.transport.socket.ops i with
      | none => exact ⟨h.transport, h.fault⟩
      | some op => exact .after _ _
    | runResolve i =>
      simp only [attempt, run_cons, run_nil, one, Attempts.act, Client.act, h.transport]
      cases ready c.transport.resolver i with
      | none => exact ⟨h.transport, h.fault⟩
      | some op => exact .after _ _
    | _ =>
      simp only [attempt, run_cons, run_nil, one, Attempts.act, Client.act, h.transport]
      exact ⟨rfl, h.fault⟩
  · exact h.dead running _ e

/-- The transport of a client only ever does what transports of this kind do. -/
theorem transport_follows (query : Query) (es : List Event) :
    ∃ attempts, Follows (run Attempts.step (.create query) attempts)
      (run step (create query) es) := by
  refine run_invariant (I := fun c => ∃ attempts,
    Follows (run Attempts.step (.create query) attempts) c) ?_ ⟨[.open'], rfl, rfl⟩ es
  rintro c e ⟨attempts, follows⟩
  refine ⟨attempts ++ c.attempt e, ?_⟩
  rw [run_append]
  exact follows.step e

end Client

end ThriftAsio
