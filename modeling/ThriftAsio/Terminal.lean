import ThriftAsio.Listener

/-! `talkClient_handler`: the client with the terminal it reads lines from. A line is read into
`input_buffer_` by `async_read_until` and taken out by the handler. Nothing keeps the handlers,
the connection's callbacks and the server's replies from starting a read while another one is
outstanding; the reads then share the buffer. -/

namespace ThriftAsio
open Proactor Asio

inductive Prompt where
  | username
  | message
  deriving DecidableEq, Repr

/-- The length of the line with its newline. -/
abbrev LineRead := Except ErrorCode Nat

/-- `stdin_` and `input_buffer_`. -/
structure Terminal where
  inputBuffer : Bytes
  reads : Ops Prompt LineRead

namespace Terminal

def newline : UInt8 := 10

def maxSize : Nat := 1024

def notFound : ErrorCode := .system 3

def lineLength (buffer : Bytes) : Option Nat := (buffer.findIdx? (· == newline)).map (· + 1)

/-- `async_read_until` is done when there is a newline, and fails when the buffer is full. -/
def search (buffer : Bytes) : Option LineRead :=
  match lineLength buffer with
  | some length => some (.ok length)
  | none => if buffer.length < maxSize then none else some (.error notFound)

def asyncReadUntil (t : Terminal) (p : Prompt) : Terminal :=
  { t with reads := t.reads ++ [⟨p, search t.inputBuffer⟩] }

def readUsername (t : Terminal) : Terminal := t.asyncReadUntil .username

def readMessage (t : Terminal) : Terminal := t.asyncReadUntil .message

/-- stdin has so much for the running read, which takes no more than there is room for. What becomes
of the bytes when two reads run at once is not documented, and no result rests on it. -/
def typed (t : Terminal) (i : Nat) (chunk : Bytes) : Terminal :=
  match t.reads[i]? with
  | some ⟨_, none⟩ =>
    let buffer := t.inputBuffer ++ chunk
    if buffer.length ≤ maxSize then
      match search buffer with
      | none => { t with inputBuffer := buffer }
      | some r => ⟨buffer, finish i r t.reads⟩
    else t
  | _ => t

def getline (buffer : Bytes) : Bytes × Bytes :=
  match lineLength buffer with
  | some length => (buffer.take (length - 1), buffer.drop length)
  | none => (buffer, [])

def onConnected (t : Terminal) : Terminal := t.readUsername

def onSetUserNameFailed (t : Terminal) : Terminal := t.readUsername

def onSetUserNameSucceeded (t : Terminal) : Terminal := t.readMessage

def onCallback (t : Terminal) : Callback → Terminal
  | .onConnected => t.onConnected
  | _ => t

def onMethod (t : Terminal) : TalkClientIf → Terminal
  | .onSetUserNameFailed _ => t.onSetUserNameFailed
  | .onSetUserNameSucceeded _ => t.onSetUserNameSucceeded
  | _ => t

end Terminal

structure TalkClient where
  listener : Listener
  terminal : Terminal
  /-- History: how often `client_.setUserName` was called. -/
  asked : Nat

namespace TalkClient

inductive Event where
  | client (e : Client.Event)
  | typed (i : Nat) (chunk : Bytes)
  | stdinError (i : Nat) (ec : ErrorCode)
  /-- The handler of the read at `i` runs. -/
  | runStdin (i : Nat)

def create (query : Query) : TalkClient := ⟨.create query, ⟨[], []⟩, 0⟩

def setUserName (T : ClientThrift) (s : TalkClient) (line : Bytes) : TalkClient :=
  { s with listener := s.listener.step T (.send (T.setUserName line)), asked := s.asked + 1 }

def onUsername (T : ClientThrift) (s : TalkClient) : LineRead → TalkClient
  | .error _ => s
  | .ok length =>
    if 1 < length then
      let (line, rest) := Terminal.getline s.terminal.inputBuffer
      let taken := { s with terminal := { s.terminal with inputBuffer := rest } }
      if line = [] then { taken with terminal := taken.terminal.readUsername }
      else taken.setUserName T line
    else s

/-- The handler in `read_message`. With `broadcast_message` commented out, the condition on the
line is one on starting over. -/
def onMessage (s : TalkClient) : LineRead → TalkClient
  | .error _ => s
  | .ok _ =>
    let (line, rest) := Terminal.getline s.terminal.inputBuffer
    let taken := { s with terminal := { s.terminal with inputBuffer := rest } }
    if line = [] then taken else { taken with terminal := taken.terminal.readMessage }

def onLine (T : ClientThrift) (s : TalkClient) : Prompt → LineRead → TalkClient
  | .username, r => s.onUsername T r
  | .message, r => s.onMessage r

def client (T : ClientThrift) (s : TalkClient) (e : Client.Event) : TalkClient :=
  let next := s.listener.step T e
  let calls := next.client.calls.drop s.listener.client.calls.length
  let methods := next.invoked.drop s.listener.invoked.length
  { s with
    listener := next
    terminal := methods.foldl Terminal.onMethod (calls.foldl Terminal.onCallback s.terminal) }

def act (T : ClientThrift) (s : TalkClient) : Event → TalkClient
  | .client e => s.client T e
  | .typed i chunk => { s with terminal := s.terminal.typed i chunk }
  | .stdinError i ec =>
    { s with terminal := { s.terminal with reads := finish i (.error ec) s.terminal.reads } }
  | .runStdin i =>
    match ready s.terminal.reads i with
    | none => s
    | some (prompt, r) =>
      onLine T { s with terminal := { s.terminal with
        reads := s.terminal.reads.eraseIdx i } } prompt r

def step (T : ClientThrift) (s : TalkClient) (e : Event) : TalkClient :=
  if s.listener.client.fault.isSome then s else s.act T e

end TalkClient

def Callback.prompt? : Callback → Option Prompt
  | .onConnected => some .username
  | _ => none

def TalkClientIf.prompt? : TalkClientIf → Option Prompt
  | .onSetUserNameFailed _ => some .username
  | .onSetUserNameSucceeded _ => some .message
  | _ => none

namespace Terminal

theorem foldl_onCallback (calls : List Callback) (t : Terminal) :
    calls.foldl onCallback t = (calls.filterMap Callback.prompt?).foldl asyncReadUntil t := by
  induction calls generalizing t with
  | nil => rfl
  | cons call calls ih => cases call <;> exact ih _

theorem foldl_onMethod (methods : List TalkClientIf) (t : Terminal) :
    methods.foldl onMethod t =
      (methods.filterMap TalkClientIf.prompt?).foldl asyncReadUntil t := by
  induction methods generalizing t with
  | nil => rfl
  | cons method methods ih => cases method <;> exact ih _

theorem foldl_asyncReadUntil (prompts : List Prompt) (t : Terminal) :
    prompts.foldl asyncReadUntil t =
      { t with reads := t.reads ++ prompts.map fun p => ⟨p, search t.inputBuffer⟩ } := by
  induction prompts generalizing t with
  | nil => simp
  | cons p prompts ih =>
    rw [List.foldl_cons, ih]
    simp [asyncReadUntil]

end Terminal

namespace Client

def connects (c : Client) : Event → Bool
  | .run i =>
    match ready c.transport.socket.ops i with
    | some (.own _, .ok _) => true
    | _ => false
  | _ => false

def callbacks (c : Client) : Event → List Callback
  | .connectTo query => (c.transport.connectTo query).calls
  | .run i =>
    match ready c.transport.socket.ops i with
    | none => []
    | some (op, r) => ((c.taking i).handle op r).calls
  | .runResolve i =>
    match ready c.transport.resolver i with
    | none => []
    | some (query, r) => (ClientTransport.onResolve
        { c.transport with resolver := c.transport.resolver.eraseIdx i } query r).calls
  | .runWait i =>
    match ready c.timers.waits i with
    | some (_, .error ec) => [.onError ec]
    | _ => []
  | _ => []

theorem act_calls (c : Client) (e : Event) : (c.act e).calls = c.calls ++ c.callbacks e := by
  cases e with
  | connectTo query => exact after_calls _ _
  | update => exact (update_same c).2.trans (List.append_nil _).symm
  | read => exact (read_calls c).trans (List.append_nil _).symm
  | run i =>
    cases found : ready c.transport.socket.ops i with
    | none => simp [act, callbacks, found]
    | some x =>
      simp only [act, callbacks, found]
      exact after_calls _ _
  | runResolve i =>
    cases found : ready c.transport.resolver i with
    | none => simp [act, callbacks, found]
    | some x =>
      simp only [act, callbacks, found]
      exact after_calls _ _
  | runWait i =>
    cases found : ready c.timers.waits i with
    | none => simp [act, callbacks, found]
    | some x =>
      obtain ⟨timer, ec | u⟩ := x
      · simp [act, callbacks, found, onWait, onCallback, onError, reconnectIn]
      · simp [act, callbacks, found, onWait]
  | _ => exact (List.append_nil _).symm

theorem callbacks_prompts (c : Client) (e : Event) :
    (c.callbacks e).filterMap Callback.prompt? = if c.connects e then [.username] else [] := by
  cases e with
  | run i =>
    cases found : ready c.transport.socket.ops i with
    | none => simp [callbacks, connects, found]
    | some x =>
      obtain ⟨op, r⟩ := x
      simp only [callbacks, connects, found]
      cases r with
      | error ec =>
        rw [ClientTransport.handle_error]
        cases op <;> rfl
      | ok bytes =>
        rw [ClientTransport.calls_handle_ok]
        cases op <;> rfl
  | runResolve i =>
    cases found : ready c.transport.resolver i with
    | none => simp [callbacks, connects, found]
    | some x =>
      obtain ⟨query, ec | u⟩ := x
      · simp only [callbacks, connects, found]
        rfl
      · simp only [callbacks, connects, found]
        rfl
  | runWait i =>
    cases found : ready c.timers.waits i with
    | none => simp [callbacks, connects, found]
    | some x =>
      obtain ⟨timer, ec | u⟩ := x
      · simp [callbacks, connects, found, Callback.prompt?]
      · simp [callbacks, connects, found]
  | _ => rfl

end Client

namespace Listener

theorem act_calls (T : ClientThrift) {l : Listener} (running : l.client.fault = none)
    (e : Client.Event) : (l.act T e).client.calls = l.client.calls ++ l.client.callbacks e := by
  cases e with
  | update => exact (update_same T l).2.trans (List.append_nil _).symm
  | read => exact (read_same T l).2.trans (List.append_nil _).symm
  | _ =>
    refine (congrArg Client.calls (other_client l _)).trans ?_
    rw [Client.step_running running, Client.act_calls]

def due (T : ClientThrift) (l : Listener) (e : Client.Event) : List Prompt :=
  (if l.client.connects e then [.username] else []) ++
    (l.methods T e).filterMap TalkClientIf.prompt?

theorem methods_length (T : ClientThrift) (l : Listener) (e : Client.Event) :
    (l.methods T e).length ≤ 1 := by
  unfold methods
  cases l.message? e with
  | none => exact Nat.zero_le 1
  | some message =>
    simp only [Option.elim_some, decoded]
    cases T.incoming message with
    | error ec => exact Nat.zero_le 1
    | ok out => cases h : out.1 <;> simp [h, Incoming.methods]

theorem due_length (T : ClientThrift) (l : Listener) (e : Client.Event) :
    (l.due T e).length ≤ 1 := by
  by_cases connects : l.client.connects e = true
  · have silent : l.methods T e = [] := by
      cases e <;> first | rfl | cases connects
    simp [due, connects, silent]
  · rw [due, if_neg connects, List.nil_append]
    exact (List.length_filterMap_le _ _).trans (methods_length T l e)

end Listener

namespace TalkClient

theorem step_running (T : ClientThrift) {s : TalkClient} (running : s.listener.client.fault = none)
    (e : Event) : s.step T e = s.act T e := by simp [step, running]

theorem step_dead (T : ClientThrift) {s : TalkClient} (dead : s.listener.client.fault ≠ none)
    (e : Event) : s.step T e = s := by simp [step, Option.isSome_iff_ne_none.mpr dead]

theorem client_eq (T : ClientThrift) {s : TalkClient} (running : s.listener.client.fault = none)
    (e : Client.Event) : s.client T e =
      { s with
        listener := s.listener.step T e
        terminal := (s.listener.due T e).foldl Terminal.asyncReadUntil s.terminal } := by
  have calls := Listener.act_calls T running e
  have methods := s.listener.act_invoked T e
  rw [← Listener.step_running T running] at calls methods
  simp only [client, calls, methods, List.drop_left, Terminal.foldl_onMethod,
    Terminal.foldl_onCallback, ← List.foldl_append, Client.callbacks_prompts, Listener.due]

end TalkClient

end ThriftAsio
