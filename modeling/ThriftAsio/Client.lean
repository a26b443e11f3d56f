import ThriftAsio.ClientTransport
import ThriftAsio.Framing

/-! `thrift_asio_client` as `talkClient_handler` runs it: `on_error` arms the reconnect timer.
Handlers run one at a time, and also inside `read()` while a frame is being read; so a frame in
progress is part of the state. `reconnect_in` and `connect_to` replace the protocol objects, but
a `process` call that is under way holds the object it was given and finishes its frame with it.
A received byte carries the generation of the socket it came from. -/

namespace ThriftAsio
open Proactor Asio

/-- A received byte and the connection it was received on. -/
abbrev Arrived := Nat × UInt8

/-- What `TFramedTransport` reads: four size bytes, then exactly the payload. -/
def arrivedFrames : FrameFormat Arrived :=
  ⟨4, fun header => bigEndian (header.map Prod.snd), sizedFrames.headerLength_pos⟩

inductive Reading where
  | idle
  | size
  | payload (header : List Arrived)

/-- `reconnect_timer` and the waits of all timers whose handler is still to run. -/
structure Timers where
  reconnectTimer : Option Nat
  /-- How many timers were made, one for each call of `reconnect_in`. -/
  made : Nat
  waits : Ops Nat (Except ErrorCode Unit)

/-- Assigning `reconnect_timer` destroys the old timer, which aborts its wait. -/
def Timers.rearm (t : Timers) : Timers where
  reconnectTimer := some t.made
  made := t.made + 1
  waits := start t.made
    (cancelWhere (fun timer => t.reconnectTimer == some timer) (.error .operationAborted) t.waits)

structure Client where
  transport : ClientTransport Arrived
  timers : Timers
  /-- History: how often an expired timer has called `transport_->open()`. -/
  opens : Nat
  reading : Reading
  /-- History: the frames given to the processor, each with its size bytes. -/
  frames : List (List Arrived)
  /-- History: the calls on the event handlers. -/
  calls : List Callback
  fault : Option Fault

namespace Client

inductive Event where
  | connectTo (query : Query)
  /-- A call on `client_` flushes one frame. -/
  | send (frame : List UInt8)
  | update
  /-- The innermost `read()` has enough bytes and returns. -/
  | read
  | finish (i : Nat) (r : Except ErrorCode (List UInt8))
  | nextEndpoint (i : Nat)
  | run (i : Nat)
  | resolved (i : Nat) (r : Resolution)
  | runResolve (i : Nat)
  | expire (i : Nat)
  | runWait (i : Nat)

def create (query : Query) : Client :=
  ⟨(ClientTransport.create query).open', ⟨none, 0, []⟩, 0, .idle, [], [], none⟩

def reconnectIn (c : Client) : Client := { c with timers := c.timers.rearm }

def onError (c : Client) : Client := c.reconnectIn

def onCallback (c : Client) (call : Callback) : Client :=
  let noted := { c with calls := c.calls ++ [call] }
  match call with
  | .onError _ => noted.onError
  | _ => noted

/-- A function of the transport returns; the calls it made are answered. -/
def after (c : Client) (o : Outcome (ClientTransport Arrived)) : Client :=
  o.calls.foldl onCallback { c with transport := o.state, fault := o.fault }

def update (c : Client) : Client :=
  match c.reading with
  | .idle => if c.transport.peek then { c with reading := .size } else c
  | _ => c

/-- The wait loop of `read()` ends; `TFramedTransport` goes on with the frame. -/
def read (c : Client) : Client :=
  match c.reading with
  | .idle => c
  | .size =>
    match c.transport.toTransport.read 4 with
    | none => c
    | some (header, rest) =>
      { c with transport := { c.transport with toTransport := rest }, reading := .payload header }
  | .payload header =>
    match c.transport.toTransport.read (arrivedFrames.payloadLength header) with
    | none => c
    | some (payload, rest) =>
      { c with
        transport := { c.transport with toTransport := rest }
        reading := .idle
        frames := c.frames ++ [header ++ payload] }

def onWait (c : Client) : Except ErrorCode Unit → Client
  | .error ec => c.onCallback (.onError ec)
  | .ok () => { c with transport := c.transport.open', opens := c.opens + 1 }

def arrive (c : Client) (bytes : List UInt8) : List Arrived :=
  bytes.map fun b => (c.transport.socket.generation, b)

def taking (c : Client) (i : Nat) : ClientTransport Arrived :=
  { c.transport with toTransport := c.transport.toTransport.take i }

def act (c : Client) : Event → Client
  | .connectTo query => c.after (c.transport.connectTo query)
  | .send frame =>
    { c with transport := { c.transport with
        toTransport := c.transport.toTransport.write frame } }
  | .update => c.update
  | .read => c.read
  | .finish i r =>
    { c with transport := { c.transport with
        toTransport := c.transport.toTransport.finish i (r.map c.arrive) } }
  | .nextEndpoint i => { c with transport := c.transport.nextEndpoint i }
  | .run i =>
    match ready c.transport.socket.ops i with
    | none => c
    | some (op, r) => c.after ((c.taking i).handle op r)
  | .resolved i r =>
    { c with transport := { c.transport with resolver := finish i r c.transport.resolver } }
  | .runResolve i =>
    match ready c.transport.resolver i with
    | none => c
    | some (query, r) =>
      c.after (ClientTransport.onResolve
        { c.transport with resolver := c.transport.resolver.eraseIdx i } query r)
  | .expire i => { c with timers := { c.timers with waits := finish i (.ok ()) c.timers.waits } }
  | .runWait i =>
    match ready c.timers.waits i with
    | none => c
    | some (_, r) =>
      onWait { c with timers := { c.timers with waits := c.timers.waits.eraseIdx i } } r

def step (c : Client) (e : Event) : Client := if c.fault.isSome then c else c.act e

theorem step_running {c : Client} (running : c.fault = none) (e : Event) :
    c.step e = c.act e := by simp [step, running]

theorem step_dead {c : Client} (dead : c.fault ≠ none) (e : Event) : c.step e = c := by
  simp [step, Option.isSome_iff_ne_none, dead]

theorem after_eq (c : Client) (o : Outcome (ClientTransport Arrived)) :
    ∃ timers calls, c.after o =
      { c with transport := o.state, fault := o.fault, timers := timers, calls := calls } := by
  have folded : ∀ (calls : List Callback) (d : Client), ∃ timers calls',
      calls.foldl onCallback d = { d with timers := timers, calls := calls' } := by
    intro calls
    induction calls with
    | nil => exact fun d => ⟨_, _, rfl⟩
    | cons call calls ih =>
      intro d
      obtain ⟨timers, calls', h⟩ := ih (d.onCallback call)
      refine ⟨timers, calls', ?_⟩
      rw [List.foldl_cons, h]
      cases call <;> rfl
  obtain ⟨timers, calls, h⟩ := folded o.calls
    { c with transport := o.state, fault := o.fault }
  exact ⟨timers, calls, h⟩

theorem update_same (c : Client) :
    c.update.transport = c.transport ∧ c.update.calls = c.calls := by
  unfold update
  split
  · split <;> exact ⟨rfl, rfl⟩
  · exact ⟨rfl, rfl⟩

theorem read_calls (c : Client) : c.read.calls = c.calls := by
  unfold read
  split
  · rfl
  · split <;> rfl
  · split <;> rfl

theorem after_calls (c : Client) (o : Outcome (ClientTransport Arrived)) :
    (c.after o).calls = c.calls ++ o.calls := by
  have folded : ∀ (calls : List Callback) (d : Client),
      (calls.foldl onCallback d).calls = d.calls ++ calls := by
    intro calls
    induction calls with
    | nil => exact fun d => (List.append_nil _).symm
    | cons call calls ih =>
      intro d
      have noted : (d.onCallback call).calls = d.calls ++ [call] := by cases call <;> rfl
      rw [List.foldl_cons, ih, noted, List.append_assoc, List.singleton_append]
  exact folded o.calls _

end Client

end ThriftAsio
