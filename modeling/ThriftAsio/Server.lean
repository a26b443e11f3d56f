import ThriftAsio.Framing
import ThriftAsio.Sessions

/-! `thrift_asio_server` with `talkServer_handler`, without compression. Each accepted connection
gets a protocol object of its own, whose number stands for the connection. A read takes its
bytes when it completes; before that they are counted as not read. `event_handlers` are the empty
ones of the base class. An exception or a failed assertion leaves the event loop, and nothing
happens after it. -/

namespace ThriftAsio
open Proactor Asio Machine

inductive ReadOp where
  | frameSize
  | frameData (frameSize : Nat)
  deriving DecidableEq, Repr

def ReadOp.size : ReadOp → Nat
  | .frameSize => 4
  | .frameData n => n

structure Connection where
  transport : Transport ReadOp UInt8
  /-- Bytes that have arrived and that no read has taken. -/
  unread : List UInt8
  /-- History: all bytes that have arrived. -/
  arrived : List UInt8

/-- History: what the server calls on its handler and processor, and what these write. -/
inductive Call where
  | connected (p : Protocol) (client : ClientPtr)
  | disconnected (p : Protocol)
  | beforeProcess (p : Protocol)
  | process (p : Protocol) (payload : List UInt8) (current : Option ClientPtr)
  | sent (p : Protocol) (message : OutMessage)
  | processReturned (p : Protocol)
  | afterProcess
  deriving DecidableEq, Repr

structure Server where
  acceptor : Socket Unit Unit
  connections : Protocol → Option Connection
  handler : Handler
  log : List Call
  fault : Option Fault

namespace Connection

def create : Connection := ⟨.create true, [], []⟩

def onTransport (f : Transport ReadOp UInt8 → Transport ReadOp UInt8) (c : Connection) :
    Connection := { c with transport := f c.transport }

def arrive (bytes : List UInt8) (c : Connection) : Connection :=
  { c with unread := c.unread ++ bytes, arrived := c.arrived ++ bytes }

/-- Operation `i` completes. A read succeeds only with all its bytes, a write at any time. -/
def finish (i : Nat) (r : Except ErrorCode Unit) (c : Connection) : Connection :=
  match r, c.transport.socket.ops[i]? with
  | .error ec, _ => c.onTransport (·.finish i (.error ec))
  | .ok (), some ⟨.own op, none⟩ =>
    if op.size ≤ c.unread.length then
      { c with
        transport := c.transport.finish i (.ok (c.unread.take op.size))
        unread := c.unread.drop op.size }
    else c
  | .ok (), some ⟨.asyncWrite _, none⟩ => c.onTransport (·.finish i (.ok []))
  | .ok (), _ => c

def startRead (op : ReadOp) : Connection → Connection :=
  onTransport fun t => { t with socket := t.socket.start (.own op) }

end Connection

namespace Server

inductive Event where
  | finishAccept (i : Nat) (r : Except ErrorCode Unit)
  /-- The handler of an accept; `p` is the protocol object that it makes. -/
  | runAccept (i : Nat) (p : Protocol)
  | stopListening
  | arrive (p : Protocol) (bytes : List UInt8)
  | finish (p : Protocol) (i : Nat) (r : Except ErrorCode Unit)
  | run (p : Protocol) (i : Nat)
  /-- A message is written to a session from outside a request. -/
  | write (p : Protocol) (frame : List UInt8)

def onConnection (s : Server) (p : Protocol) (f : Connection → Connection) : Server :=
  { s with connections := Function.update s.connections p ((s.connections p).map f) }

def write (s : Server) (p : Protocol) (frame : List UInt8) : Server :=
  s.onConnection p (·.onTransport (·.write frame))

def startAccept (s : Server) : Server := { s with acceptor := s.acceptor.start () }

def readFrameSize (s : Server) (p : Protocol) : Server :=
  s.onConnection p (·.startRead .frameSize)

def readFrameData (s : Server) (p : Protocol) (frameSize : Nat) : Server :=
  s.onConnection p (·.startRead (.frameData frameSize))

def create : Server :=
  startAccept ⟨⟨true, 0, [], []⟩, fun _ => none, .create, [], none⟩

def onAccept (s : Server) (p : Protocol) : Server :=
  match s.handler.onClientConnected p with
  | .error f => { s with fault := some f }
  | .ok h =>
    readFrameSize
      { s with
        connections := Function.update s.connections p (some .create)
        handler := h
        log := s.log ++ [.connected p s.handler.made] } p

def onDisconnected (s : Server) (p : Protocol) : Server :=
  match s.handler.onClientDisconnected p with
  | .error f => { s with fault := some f }
  | .ok h => { s with handler := h, log := s.log ++ [.disconnected p] }

/-- Writing a message to a protocol: the frame goes down to its transport. -/
def send (T : Thrift) (s : Server) (m : Protocol × OutMessage) : Server :=
  { s.write m.1 (T.frame m.2) with log := s.log ++ [.sent m.1 m.2] }

/-- `processor.process(input_protocol, output_protocol, connection_context)` -/
def process (T : Thrift) (s : Server) (p : Protocol) (payload : List UInt8) : Server :=
  let called : Server := { s with log := s.log ++ [.process p payload s.handler.currentClient] }
  match T.request payload with
  | .error _ => { called with fault := some .thriftException }
  | .ok request =>
    match s.handler.process p request with
    | .error f => { called with fault := some f }
    | .ok answer =>
      let written := answer.sent.foldl (send T) { called with handler := answer.handler }
      { written with log := written.log ++ [.processReturned p] }

def onFrameData (T : Thrift) (s : Server) (p : Protocol) (payload : List UInt8) : Server :=
  match s.handler.beforeProcess p with
  | .error f => { s with fault := some f }
  | .ok h =>
    let processed :=
      process T { s with handler := h, log := s.log ++ [.beforeProcess p] } p payload
    if processed.fault.isSome then processed
    else
      readFrameSize
        { processed with
          handler := processed.handler.afterProcess
          log := processed.log ++ [.afterProcess] } p

def handle (T : Thrift) (s : Server) (p : Protocol) (t : Transport ReadOp UInt8)
    (op : SocketOp ReadOp) (r : Completion UInt8) : Server :=
  let taken := s.onConnection p (·.onTransport fun _ => t)
  match op, r with
  | .own _, .error _ => taken.onDisconnected p
  | .own .frameSize, .ok size => taken.readFrameData p (bigEndian size)
  | .own (.frameData _), .ok payload => taken.onFrameData T p payload
  | op, r =>
    let o := t.handle op r
    { s.onConnection p (·.onTransport fun _ => o.state) with fault := o.fault }

def act (T : Thrift) (s : Server) : Event → Server
  | .finishAccept i r => { s with acceptor := s.acceptor.finish i (r.map fun _ => []) }
  | .runAccept i p =>
    match ready s.acceptor.ops i, s.connections p with
    | some (_, .error _), _ => { s with acceptor := s.acceptor.take i }
    | some (_, .ok _), none =>
      let accepted := onAccept { s with acceptor := s.acceptor.take i } p
      if accepted.fault.isSome then accepted else accepted.startAccept
    | _, _ => s
  | .stopListening => { s with acceptor := s.acceptor.close }
  | .arrive p bytes => s.onConnection p (·.arrive bytes)
  | .finish p i r => s.onConnection p (·.finish i r)
  | .run p i =>
    match s.connections p with
    | none => s
    | some c =>
      match ready c.transport.socket.ops i with
      | none => s
      | some (op, r) => s.handle T p (c.transport.take i) op r
  | .write p frame => s.write p frame

def step (T : Thrift) (s : Server) (e : Event) : Server :=
  if s.fault.isSome then s else s.act T e

end Server

end ThriftAsio
