import ThriftAsio.Client
import ThriftAsio.ClientService

/-! The processor of the client, which reads through the `TFramedTransport` of
`input_protocol_`. A message that is longer than its frame goes on in the next one, and what a
message leaves of its frame is there for the next message. Each `update` event is a round of
`update()`, which has as many as there are bytes for; `update_one()` has one. -/

namespace ThriftAsio
open Proactor Asio

structure Listener where
  client : Client
  /-- What the framed transport has read and not given out. -/
  unread : Bytes
  /-- `input_protocol_` was replaced under a `process` call, which goes on with the old one. -/
  replaced : Bool
  /-- History: the handler methods that were invoked. -/
  invoked : List TalkClientIf

namespace Listener

def create (query : Query) : Listener := ⟨.create query, [], false, []⟩

def throws (l : Listener) (fault : Fault) : Listener :=
  { l with client := { l.client with fault := some fault } }

def returned (l : Listener) (rest : Bytes) : Listener :=
  { l with unread := if l.replaced then [] else rest, replaced := false }

def process (T : ClientThrift) (l : Listener) (message : Bytes) : Listener :=
  match T.incoming message with
  | .ok (incoming, rest) =>
    -- the output protocol is null
    if incoming.replies then l.throws .undefinedBehaviour
    else { l.returned rest with invoked := l.invoked ++ incoming.methods }
  | .error e =>
    if T.endOfFile e then
      { l with unread := message, client := { l.client with reading := .size } }
    else l.throws .thriftException

/-- `readFrame()` is done. An empty frame has nothing for the `readAll` that asked for it. -/
def onFrame (T : ClientThrift) (l : Listener) (payload : Bytes) : Listener :=
  if payload = [] then l.throws .thriftException else l.process T (l.unread ++ payload)

def update (T : ClientThrift) (l : Listener) : Listener :=
  match l.client.reading with
  | .idle =>
    if l.client.transport.peek then
      if l.unread = [] then { l with client := l.client.update } else l.process T l.unread
    else l
  | _ => l

def read (T : ClientThrift) (l : Listener) : Listener :=
  match l.client.reading with
  | .payload header =>
    match l.client.transport.toTransport.read (arrivedFrames.payloadLength header) with
    | none => l
    | some (payload, _) => onFrame T { l with client := l.client.read } (payload.map Prod.snd)
  | _ => { l with client := l.client.read }

/-- `reconnect_in` and `connect_to` make new protocol objects. -/
def replaces (c : Client) : Client.Event → Bool
  | .connectTo _ => true
  | e => (c.step e).timers.made != c.timers.made

def replace (l : Listener) : Listener :=
  match l.client.reading with
  | .idle => { l with unread := [] }
  | _ => { l with replaced := true }

def other (l : Listener) (e : Client.Event) : Listener :=
  let next := { l with client := l.client.step e }
  if replaces l.client e then next.replace else next

def act (T : ClientThrift) (l : Listener) : Client.Event → Listener
  | .update => l.update T
  | .read => l.read T
  | e => l.other e

def step (T : ClientThrift) (l : Listener) (e : Client.Event) : Listener :=
  if l.client.fault.isSome then l else l.act T e

theorem step_running (T : ClientThrift) {l : Listener} (running : l.client.fault = none)
    (e : Client.Event) : l.step T e = l.act T e := by simp [step, running]

theorem step_dead (T : ClientThrift) {l : Listener} (dead : l.client.fault ≠ none)
    (e : Client.Event) : l.step T e = l := by simp [step, Option.isSome_iff_ne_none.mpr dead]

theorem process_incoming {T : ClientThrift} {l : Listener} {message rest : Bytes}
    {incoming : Incoming} (decoded : T.incoming message = .ok (incoming, rest)) :
    l.process T message = if incoming.replies then l.throws .undefinedBehaviour
      else { l.returned rest with invoked := l.invoked ++ incoming.methods } := by
  simp only [process, decoded]

theorem process_error {T : ClientThrift} {l : Listener} {message : Bytes} {e : ThriftException}
    (failed : T.incoming message = .error e) : l.process T message =
      if T.endOfFile e then
        { l with unread := message, client := { l.client with reading := .size } }
      else l.throws .thriftException := by
  simp only [process, failed]

theorem onFrame_whole {T : ClientThrift} {l : Listener} (empty : l.unread = []) {payload : Bytes}
    {incoming : Incoming} (whole : T.Whole payload incoming) : l.onFrame T payload =
      { l.returned [] with invoked := l.invoked ++ incoming.methods } := by
  obtain ⟨nonempty, silent, decoded⟩ := whole
  rw [onFrame, if_neg nonempty, empty, List.nil_append, process_incoming decoded,
    if_neg (by simp [silent])]

@[simp] theorem returned_nil_unread (l : Listener) : (l.returned []).unread = [] := ite_self _

/-- The bytes of a message that `process` has got by the step. -/
def message? (l : Listener) : Client.Event → Option Bytes
  | .update =>
    match l.client.reading with
    | .idle => if l.client.transport.peek ∧ l.unread ≠ [] then some l.unread else none
    | _ => none
  | .read =>
    match l.client.reading with
    | .payload header =>
      (l.client.transport.toTransport.read (arrivedFrames.payloadLength header)).bind fun r =>
        if r.1 = [] then none else some (l.unread ++ r.1.map Prod.snd)
    | _ => none
  | _ => none

def decoded (T : ClientThrift) (message : Bytes) : List TalkClientIf :=
  match T.incoming message with
  | .ok (incoming, _) => incoming.methods
  | .error _ => []

def methods (T : ClientThrift) (l : Listener) (e : Client.Event) : List TalkClientIf :=
  (l.message? e).elim [] (decoded T)

theorem process_same (T : ClientThrift) (l : Listener) (message : Bytes) :
    (l.process T message).client.transport = l.client.transport ∧
      (l.process T message).client.calls = l.client.calls := by
  unfold process
  split <;> split <;> exact ⟨rfl, rfl⟩

theorem onFrame_same (T : ClientThrift) (l : Listener) (payload : Bytes) :
    (l.onFrame T payload).client.transport = l.client.transport ∧
      (l.onFrame T payload).client.calls = l.client.calls := by
  unfold onFrame
  split
  · exact ⟨rfl, rfl⟩
  · exact process_same T l _

theorem update_same (T : ClientThrift) (l : Listener) :
    (l.update T).client.transport = l.client.transport ∧
      (l.update T).client.calls = l.client.calls := by
  unfold update
  split
  · split
    · split
      · exact Client.update_same l.client
      · exact process_same T l _
    · exact ⟨rfl, rfl⟩
  · exact ⟨rfl, rfl⟩

theorem read_same (T : ClientThrift) (l : Listener) :
    (l.read T).client.transport = l.client.read.transport ∧
      (l.read T).client.calls = l.client.calls := by
  unfold read
  split
  · rename_i header reading
    split
    · rename_i waits
      exact ⟨by simp only [Client.read, reading, waits], rfl⟩
    · obtain ⟨transport, calls⟩ := onFrame_same T { l with client := l.client.read } _
      exact ⟨transport, calls.trans (Client.read_calls l.client)⟩
  · exact ⟨rfl, Client.read_calls l.client⟩

theorem process_invoked (T : ClientThrift) (l : Listener) (message : Bytes) :
    (l.process T message).invoked = l.invoked ++ decoded T message := by
  cases found : T.incoming message with
  | error e =>
    rw [process_error found]
    simp only [decoded, found, List.append_nil]
    split <;> rfl
  | ok out =>
    rw [process_incoming found]
    simp only [decoded, found]
    split
    · rename_i replies
      cases h : out.1 with
      | unknownMethod fname seqid => simp [Incoming.methods, throws]
      | refused => simp [h, Incoming.replies] at replies
      | call method => simp [h, Incoming.replies] at replies
    · rfl

theorem replace_client (l : Listener) : l.replace.client = l.client := by
  unfold replace
  split <;> rfl

theorem replace_invoked (l : Listener) : l.replace.invoked = l.invoked := by
  unfold replace
  split <;> rfl

theorem other_client (l : Listener) (e : Client.Event) :
    (l.other e).client = l.client.step e := by
  unfold other
  split
  · exact replace_client _
  · rfl

theorem other_invoked (l : Listener) (e : Client.Event) : (l.other e).invoked = l.invoked := by
  unfold other
  split
  · exact replace_invoked _
  · rfl

theorem act_invoked (T : ClientThrift) (l : Listener) (e : Client.Event) :
    (l.act T e).invoked = l.invoked ++ l.methods T e := by
  cases e with
  | update =>
    simp only [act, update, methods, message?]
    cases l.client.reading with
    | idle =>
      by_cases peek : l.client.transport.peek = true
      · by_cases empty : l.unread = []
        · simp [peek, empty]
        · simp [peek, empty, process_invoked]
      · simp [peek]
    | size => simp
    | payload header => simp
  | read =>
    simp only [act, read, methods, message?]
    cases l.client.reading with
    | idle => simp
    | size => simp
    | payload header =>
      cases got : l.client.transport.toTransport.read (arrivedFrames.payloadLength header) with
      | none => simp [got]
      | some r =>
        by_cases empty : r.1 = []
        · simp [got, empty, onFrame, throws]
        · simp [got, empty, onFrame, process_invoked]
  | _ => exact (other_invoked l _).trans (List.append_nil _).symm

section Step

variable {T : ClientThrift} {l : Listener}

theorem step_update (running : l.client.fault = none) (idle : l.client.reading = .idle)
    (empty : l.unread = []) (peek : l.client.transport.peek = true) :
    l.step T .update = { l with client := { l.client with reading := .size } } := by
  rw [step_running T running]
  simp only [act, update, Client.update, idle, peek, empty, if_true]

theorem step_read_size (running : l.client.fault = none) (size : l.client.reading = .size)
    (enough : 4 ≤ l.client.transport.incommingBytes.length) :
    l.step T .read = { l with client := { l.client with
      transport := { l.client.transport with
        incommingBytes := l.client.transport.incommingBytes.drop 4 }
      reading := .payload (l.client.transport.incommingBytes.take 4) } } := by
  rw [step_running T running]
  simp only [act, read, size, Client.read, Transport.read_enough enough]

theorem step_read_payload (running : l.client.fault = none) {header : List Arrived}
    (reading : l.client.reading = .payload header)
    (enough : arrivedFrames.payloadLength header ≤ l.client.transport.incommingBytes.length) :
    let n := arrivedFrames.payloadLength header
    let bytes := l.client.transport.incommingBytes
    l.step T .read = onFrame T { l with client := { l.client with
      transport := { l.client.transport with incommingBytes := bytes.drop n }
      reading := .idle
      frames := l.client.frames ++ [header ++ bytes.take n] } } ((bytes.take n).map Prod.snd) := by
  rw [step_running T running]
  simp only [act, read, reading, Client.read, Transport.read_enough enough]

end Step

end Listener

end ThriftAsio
