import ThriftAsio.Listener
import ThriftAsio.Server
import ThriftAsio.Writers

/-! The server, its clients, and the streams between them. TCP hands on the bytes of each stream in
their order, in pieces of any size and at any time. Bytes count for a connection as long as they are
given to a socket that is open on it. A connection whose other end is not modelled may bring
anything. -/

namespace ThriftAsio
open Proactor Asio Machine

/-- What both ends have in common, and the methods that the calls of the server's handler on
`client` are. -/
structure Wire where
  library : ClientThrift
  writer : OutputProtocol
  method : ClientCall → TalkClientIf

def nextBytes (sent received : Bytes) (n : Nat) : Bytes := (sent.drop received.length).take n

/-- A client at the other end of a connection. -/
structure Peer where
  /-- The client as it was when the connection was made. -/
  start : Listener
  listener : Listener
  /-- History: the calls on `client_`. -/
  calls : List TalkServerIf
  /-- History: what the client's socket was given on this connection. -/
  up : Bytes
  /-- History: what the server's socket was given. -/
  down : Bytes
  /-- History: what has been received of `down`. -/
  delivered : Bytes

structure Network where
  server : Server
  peers : Protocol → Option Peer

/-- The client itself may do this: nothing is called on `client_`, and nothing is received. -/
def Listener.allows (l : Listener) : Client.Event → Bool
  | .send _ => false
  | .finish i (.ok _) =>
    match l.client.transport.socket.ops[i]? with
    | some ⟨.asyncReceive, _⟩ => false
    | _ => true
  | _ => true

/-- The socket is open and was not opened again since the connection was made. -/
def Listener.On (l start : Listener) : Prop :=
  l.client.transport.isOpen = true ∧
    l.client.transport.socket.generation = start.client.transport.socket.generation

instance (l start : Listener) : Decidable (l.On start) := inferInstanceAs (Decidable (_ ∧ _))

namespace Peer

def create (l : Listener) : Peer := ⟨l, l, [], [], [], []⟩

def moved (peer : Peer) (l : Listener) : Peer :=
  { peer with
    listener := l
    up :=
      if l.On peer.start then
        (content l.client.transport.handed).drop
          (content peer.start.client.transport.handed).length
      else peer.up }

def step (N : Wire) (peer : Peer) (e : Client.Event) : Peer :=
  peer.moved (peer.listener.step N.library e)

def call (N : Wire) (method : TalkServerIf) (peer : Peer) : Peer :=
  if peer.listener.client.fault.isSome then peer
  else { peer.step N (.send (OutputProtocol.flush (N.writer.talkServerClient method))) with
    calls := peer.calls ++ [method] }

/-- The receive at `i` completes with the next `n` bytes. -/
def receive (N : Wire) (i n : Nat) (peer : Peer) : Peer :=
  match peer.listener.client.transport.socket.ops[i]? with
  | some ⟨.asyncReceive, none⟩ =>
    if peer.listener.client.fault.isSome ∨ ¬ peer.listener.On peer.start then peer
    else
      let bytes := nextBytes peer.down peer.delivered n
      { peer.step N (.finish i (.ok bytes)) with delivered := peer.delivered ++ bytes }
  | _ => peer

def answered (c : Option Connection) (peer : Peer) : Peer :=
  match c with
  | none => peer
  | some c =>
    if c.transport.isOpen then { peer with down := content c.transport.handed } else peer

end Peer

namespace Network

inductive Event where
  | server (e : Server.Event)
  | client (p : Protocol) (e : Client.Event)
  | call (p : Protocol) (method : TalkServerIf)
  /-- Bytes reach the server's end of a connection. -/
  | up (p : Protocol) (n : Nat)
  /-- Bytes reach the client's end. -/
  | down (p : Protocol) (i n : Nat)

/-- The server itself may do this: it writes nothing but answers, and what arrives from a modelled
client is up to the network. -/
def allows (n : Network) : Server.Event → Bool
  | .write _ _ => false
  | .arrive p _ => (n.peers p).isNone
  | _ => true

def onPeer (n : Network) (p : Protocol) (f : Peer → Peer) : Network :=
  { n with peers := Function.update n.peers p ((n.peers p).map f) }

def serve (N : Wire) (n : Network) (e : Server.Event) : Network :=
  let server := n.server.step N.library.toThrift e
  { server := server
    peers := fun p => (n.peers p).map (Peer.answered (server.connections p)) }

def create (clients : Protocol → Option Listener) : Network :=
  ⟨.create, fun p => (clients p).map Peer.create⟩

def step (N : Wire) (n : Network) : Event → Network
  | .server e => if n.allows e then n.serve N e else n
  | .client p e =>
    n.onPeer p fun peer => if peer.listener.allows e then peer.step N e else peer
  | .call p method => n.onPeer p (Peer.call N method)
  | .up p k =>
    match n.peers p, n.server.connections p with
    | some peer, some c => n.serve N (.arrive p (nextBytes peer.up c.arrived k))
    | _, _ => n
  | .down p i k => n.onPeer p (Peer.receive N i k)

end Network

end ThriftAsio
