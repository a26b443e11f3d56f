import ThriftAsio.Asio
import ThriftAsio.Machine

/-! `thrift_asio_transport`. `κ` are the operations its owner starts on the same socket and `β`
what a received byte is: the code only moves received bytes, so a proof may label them.
Calls on `event_handlers_` are returned in order with the new state; no handler in the
repository touches the transport, so they may as well be made after the function returns. -/

namespace ThriftAsio
open Proactor Asio

/-- A string stored in `outbound_messages_`. Two of them with the same bytes are still two
strings: `stamp` is the place of this one among all that were ever stored. -/
structure Message where
  stamp : Nat
  bytes : List UInt8
  deriving DecidableEq, Repr

def content (msgs : List Message) : List UInt8 := (msgs.map Message.bytes).flatten

inductive SocketOp (κ : Type) where
  | asyncReceive
  | asyncWrite (msg : Message)
  | own (op : κ)
  deriving DecidableEq, Repr

namespace SocketOp

variable {κ : Type}

def message? : SocketOp κ → Option Message
  | .asyncWrite msg => some msg
  | _ => none

def own? : SocketOp κ → Option κ
  | .own op => some op
  | _ => none

@[simp] theorem message?_asyncReceive : (asyncReceive : SocketOp κ).message? = none := rfl

@[simp] theorem message?_asyncWrite (msg : Message) :
    (asyncWrite msg : SocketOp κ).message? = some msg := rfl

@[simp] theorem message?_own (op : κ) : (own op).message? = none := rfl

end SocketOp

inductive Callback where
  | onError (ec : ErrorCode)
  | onConnected
  | onDisconnected
  deriving DecidableEq, Repr

/-- Why control leaves the program other than by a return. -/
inductive Fault where
  | undefinedBehaviour
  | systemError
  | assertionFailed
  | thriftException
  deriving DecidableEq, Repr

/-- How a function of the transport ends: the state it leaves, the calls it made, and the fault
it ended in, if any. -/
structure Outcome (σ : Type) where
  state : σ
  calls : List Callback
  fault : Option Fault

structure Transport (κ β : Type) where
  socket : Socket (SocketOp κ) β
  incommingBytes : List β
  outboundMessages : List Message
  /-- How many strings were stored in `outbound_messages_` so far. -/
  stamps : Nat

namespace Transport

variable {κ β : Type}

/-- The constructor, on a socket that its owner has opened or not. -/
def create (opened : Bool) : Transport κ β := ⟨⟨opened, 0, [], []⟩, [], [], 0⟩

def availableBytes (t : Transport κ β) : Nat := t.incommingBytes.length

def isOpen (t : Transport κ β) : Bool := t.socket.isOpen

def isClosed (t : Transport κ β) : Bool := !t.socket.isOpen

def peek (t : Transport κ β) : Bool := t.isOpen && !t.incommingBytes.isEmpty

/-- `read(buf, len)` once it returns; `none` while its loop keeps calling `run_one()`. -/
def read (t : Transport κ β) (len : Nat) : Option (List β × Transport κ β) :=
  if t.availableBytes < len then none
  else some (t.incommingBytes.take len, { t with incommingBytes := t.incommingBytes.drop len })

def asyncWriteOne (t : Transport κ β) : Transport κ β :=
  -- consolidate outbound messages
  let msg : Message := ⟨t.stamps, content t.outboundMessages⟩
  { t with
    outboundMessages := [msg]
    stamps := t.stamps + 1
    socket := t.socket.start (.asyncWrite msg) }

def write (t : Transport κ β) (buf : List UInt8) : Transport κ β :=
  let pushed := { t with
    outboundMessages := t.outboundMessages ++ [⟨t.stamps, buf⟩]
    stamps := t.stamps + 1 }
  if pushed.outboundMessages.length = 1 then asyncWriteOne pushed else pushed

def close (t : Transport κ β) : Outcome (Transport κ β) :=
  let socket := if t.isOpen then t.socket.cancel.close else t.socket
  ⟨{ t with socket := socket, incommingBytes := [], outboundMessages := [] },
    [.onDisconnected], none⟩

def onWritten (t : Transport κ β) : Completion β → Outcome (Transport κ β)
  | .error ec =>
    let closed := t.close
    ⟨closed.state, .onError ec :: closed.calls, none⟩
  | .ok _ =>
    match t.outboundMessages with
    -- pop_front() of an empty list
    | [] => ⟨t, [], some .undefinedBehaviour⟩
    | _ :: rest =>
      let popped := { t with outboundMessages := rest }
      ⟨if rest.isEmpty then popped else asyncWriteOne popped, [], none⟩

def open' (t : Transport κ β) : Outcome (Transport κ β) :=
  -- set_option throws on a closed socket, after on_connected() was called
  if t.isOpen then ⟨{ t with socket := t.socket.start .asyncReceive }, [.onConnected], none⟩
  else ⟨t, [.onConnected], some .systemError⟩

def onReceive (t : Transport κ β) : Completion β → Outcome (Transport κ β)
  | .error ec =>
    let closed := t.close
    ⟨closed.state, .onError ec :: closed.calls, none⟩
  | .ok bytes =>
    ⟨{ t with
        incommingBytes := t.incommingBytes ++ bytes
        socket := t.socket.start .asyncReceive }, [], none⟩

def handle (t : Transport κ β) (op : SocketOp κ) (r : Completion β) :
    Outcome (Transport κ β) :=
  match op with
  | .asyncReceive => t.onReceive r
  | .asyncWrite _ => t.onWritten r
  | .own _ => ⟨t, [], none⟩

def take (t : Transport κ β) (i : Nat) : Transport κ β := { t with socket := t.socket.take i }

def finish (t : Transport κ β) (i : Nat) (r : Completion β) : Transport κ β :=
  { t with socket := t.socket.finish i r }

def reopen (t : Transport κ β) : Transport κ β := { t with socket := t.socket.reopen }

def inFlight (t : Transport κ β) : List Message :=
  t.socket.outstanding.filterMap SocketOp.message?

/-- The buffers of every `async_write` started so far, oldest first. -/
def handed (t : Transport κ β) : List Message := t.socket.started.filterMap SocketOp.message?

theorem read_some {t rest : Transport κ β} {len : Nat} {bytes : List β}
    (h : t.read len = some (bytes, rest)) :
    len ≤ t.incommingBytes.length ∧ bytes = t.incommingBytes.take len ∧
      rest = { t with incommingBytes := t.incommingBytes.drop len } := by
  simp only [read, Option.ite_none_left_eq_some, Option.some.injEq, Prod.mk.injEq] at h
  obtain ⟨enough, hbytes, hrest⟩ := h
  exact ⟨not_lt.mp enough, hbytes.symm, hrest.symm⟩

theorem read_enough {t : Transport κ β} {len : Nat} (enough : len ≤ t.incommingBytes.length) :
    t.read len =
      some (t.incommingBytes.take len, { t with incommingBytes := t.incommingBytes.drop len }) :=
  if_neg (Nat.not_lt.mpr enough)

theorem close_socket (t : Transport κ β) :
    t.close.state.socket = t.socket ∨ t.close.state.socket = t.socket.cancel.close := by
  simp only [close]
  split
  · exact .inr rfl
  · exact .inl rfl

@[simp] theorem outstanding_close (t : Transport κ β) :
    t.close.state.socket.outstanding = t.socket.outstanding := by
  rcases t.close_socket with same | closed
  · rw [same]
  · rw [closed, Socket.outstanding_close, Socket.outstanding_cancel]

@[simp] theorem isOpen_close (t : Transport κ β) : t.close.state.isOpen = false := by
  cases h : t.socket.isOpen <;> simp [close, isOpen, h]

theorem write_socket (t : Transport κ β) (buf : List UInt8) :
    (t.write buf).socket = t.socket ∨
      ∃ msg, (t.write buf).socket = t.socket.start (.asyncWrite msg) := by
  simp only [write]
  split
  · exact .inr ⟨_, rfl⟩
  · exact .inl rfl

@[simp] theorem write_incommingBytes (t : Transport κ β) (buf : List UInt8) :
    (t.write buf).incommingBytes = t.incommingBytes := by
  simp only [write]
  split <;> rfl

theorem onWritten_ok_socket (t : Transport κ β) (bytes : List β) :
    (t.onWritten (.ok bytes)).state.socket = t.socket ∨
      ∃ msg, (t.onWritten (.ok bytes)).state.socket = t.socket.start (.asyncWrite msg) := by
  simp only [onWritten]
  split
  · exact .inl rfl
  · split
    · exact .inl rfl
    · exact .inr ⟨_, rfl⟩

theorem onWritten_ok_calls (t : Transport κ β) (bytes : List β) :
    (t.onWritten (.ok bytes)).calls = [] := by
  simp only [onWritten]
  split <;> rfl

@[simp] theorem onWritten_ok_incommingBytes (t : Transport κ β) (bytes : List β) :
    (t.onWritten (.ok bytes)).state.incommingBytes = t.incommingBytes := by
  simp only [onWritten]
  split
  · rfl
  · split <;> rfl

end Transport

/-! One transport with the event loop that runs its handlers. -/

structure World (κ β : Type) where
  transport : Transport κ β
  calls : List Callback
  fault : Option Fault

inductive Event (β : Type) where
  | write (buf : List UInt8)
  | close
  /-- The owner's connect opens the socket (again). -/
  | connect
  | open'
  /-- The operation at `i` finishes, unless it already has. -/
  | finish (i : Nat) (r : Completion β)
  /-- The event loop runs the handler of the operation at `i`. -/
  | run (i : Nat)

namespace World

variable {κ β : Type}

def create (opened : Bool) : World κ β := ⟨.create opened, [], none⟩

/-- The call returns to the user, who deals with an exception himself. -/
def returned (w : World κ β) (o : Outcome (Transport κ β)) : World κ β :=
  { w with transport := o.state, calls := w.calls ++ o.calls }

def handled (w : World κ β) (o : Outcome (Transport κ β)) : World κ β :=
  { w.returned o with fault := o.fault }

def step (w : World κ β) (e : Event β) : World κ β :=
  if w.fault.isSome then w else
  let t := w.transport
  match e with
  | .write buf => { w with transport := t.write buf }
  | .close => w.returned t.close
  | .connect => { w with transport := t.reopen }
  | .open' => w.returned t.open'
  | .finish i r => { w with transport := t.finish i r }
  | .run i =>
    match ready t.socket.ops i with
    | none => w
    | some (op, r) => w.handled ((t.take i).handle op r)

end World

end ThriftAsio
