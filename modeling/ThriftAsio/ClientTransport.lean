import ThriftAsio.Transport

/-! `thrift_asio_client_transport`: name resolution and connecting in front of the transport.
`async_connect` over the resolved endpoints is one operation; whenever it goes to an endpoint it
closes the socket, if it is open, and opens it anew. -/

namespace ThriftAsio
open Proactor Asio

/-- `{host_name_, service_name_}`, what a resolver is asked. -/
structure Query where
  hostName : String
  serviceName : String
  deriving DecidableEq, Repr

inductive ConnectOp where
  /-- The composed operation over the endpoints that `query` resolved to. -/
  | asyncConnect (query : Query)
  deriving DecidableEq, Repr

abbrev Resolution := Except ErrorCode Unit

structure ClientTransport (β : Type) extends Transport ConnectOp β where
  query : Query
  resolver : Ops Query Resolution

namespace ClientTransport

variable {β : Type}

def create (query : Query) : ClientTransport β := ⟨.create false, query, []⟩

def base (t : ClientTransport β) (o : Outcome (Transport ConnectOp β)) :
    Outcome (ClientTransport β) :=
  ⟨{ t with toTransport := o.state }, o.calls, o.fault⟩

def close (t : ClientTransport β) : Outcome (ClientTransport β) := t.base t.toTransport.close

def open' (t : ClientTransport β) : ClientTransport β :=
  { t with resolver := start t.query (Proactor.cancel (.error .operationAborted) t.resolver) }

/-- `boost::asio::async_connect` going to an endpoint. -/
def asyncConnect (t : ClientTransport β) (query : Query) : ClientTransport β :=
  { t with socket := t.socket.reopen.start (.own (.asyncConnect query)) }

def onResolve (t : ClientTransport β) (query : Query) : Resolution → Outcome (ClientTransport β)
  | .error ec =>
    let closed := t.close
    ⟨closed.state, .onError ec :: closed.calls, none⟩
  | .ok () => ⟨t.asyncConnect query, [], none⟩

def onConnect (t : ClientTransport β) : Completion β → Outcome (ClientTransport β)
  | .error ec =>
    let closed := t.close
    ⟨closed.state, .onError ec :: closed.calls, none⟩
  | .ok _ => t.base t.toTransport.open'

def connectTo (t : ClientTransport β) (query : Query) : Outcome (ClientTransport β) :=
  let closed := t.close
  ⟨open' { closed.state with query := query }, closed.calls, none⟩

def handle (t : ClientTransport β) (op : SocketOp ConnectOp) (r : Completion β) :
    Outcome (ClientTransport β) :=
  match op with
  | .own (.asyncConnect _) => t.onConnect r
  | op => t.base (t.toTransport.handle op r)

/-- A running `async_connect` whose endpoint has failed goes to the next one. -/
def nextEndpoint (t : ClientTransport β) (i : Nat) : ClientTransport β :=
  match t.socket.ops[i]? with
  | some ⟨.own (.asyncConnect query), none⟩ =>
    asyncConnect { t with toTransport := t.toTransport.take i } query
  | _ => t

theorem handle_error (t : ClientTransport β) (op : SocketOp ConnectOp) (ec : ErrorCode) :
    t.handle op (.error ec) = ⟨t.close.state, [.onError ec, .onDisconnected], none⟩ := by
  cases op <;> rfl

theorem onResolve_error (t : ClientTransport β) (query : Query) (ec : ErrorCode) :
    t.onResolve query (.error ec) = ⟨t.close.state, [.onError ec, .onDisconnected], none⟩ := rfl

section Delivers

variable {Q : List β → Prop} {t : ClientTransport β} (h : t.socket.Delivers Q)
include h

theorem delivers_close : t.close.state.socket.Delivers Q := by
  change (Transport.close _).state.socket.Delivers Q
  rcases t.toTransport.close_socket with same | closed
  · rw [same]
    exact h
  · rw [closed]
    exact h.cancel.close

theorem delivers_write (frame : List UInt8) : (t.toTransport.write frame).socket.Delivers Q := by
  rcases t.toTransport.write_socket frame with same | ⟨msg, started⟩
  · rw [same]
    exact h
  · rw [started]
    exact h.start _

theorem delivers_handle (op : SocketOp ConnectOp) (r : Completion β) :
    (t.handle op r).state.socket.Delivers Q := by
  cases r with
  | error ec =>
    rw [handle_error]
    exact delivers_close h
  | ok bytes =>
    cases op with
    | asyncReceive => exact h.start _
    | asyncWrite msg =>
      change (Transport.onWritten _ _).state.socket.Delivers Q
      rcases t.toTransport.onWritten_ok_socket bytes with same | ⟨msg, started⟩
      · rw [same]
        exact h
      · rw [started]
        exact h.start _
    | own op =>
      change (Transport.open' _).state.socket.Delivers Q
      simp only [Transport.open']
      split
      · exact h.start _
      · exact h

theorem delivers_onResolve (query : Query) (r : Resolution) :
    (t.onResolve query r).state.socket.Delivers Q := by
  cases r with
  | error ec => exact delivers_close h
  | ok u => exact h.reopen.start _

theorem delivers_nextEndpoint (i : Nat) : (t.nextEndpoint i).socket.Delivers Q := by
  simp only [nextEndpoint]
  split
  · exact (h.take i).reopen.start _
  · exact h

end Delivers

theorem handle_ok_incommingBytes (t : ClientTransport β) (op : SocketOp ConnectOp)
    (bytes : List β) : (t.handle op (.ok bytes)).state.incommingBytes =
      t.incommingBytes ++ match op with
        | .asyncReceive => bytes
        | _ => [] := by
  cases op with
  | asyncReceive => rfl
  | asyncWrite msg =>
    rw [List.append_nil]
    exact Transport.onWritten_ok_incommingBytes _ _
  | own op =>
    rw [List.append_nil]
    change (Transport.open' _).state.incommingBytes = _
    simp only [Transport.open']
    split <;> rfl

theorem handle_incommingBytes (t : ClientTransport β) (op : SocketOp ConnectOp)
    (r : Completion β) :
    (t.handle op r).state.incommingBytes = t.incommingBytes ∨
      (t.handle op r).state.incommingBytes = [] ∨
      ∃ bytes, op = .asyncReceive ∧ r = .ok bytes ∧
        (t.handle op r).state.incommingBytes = t.incommingBytes ++ bytes := by
  cases r with
  | error ec =>
    rw [handle_error]
    exact .inr (.inl rfl)
  | ok bytes =>
    rw [handle_ok_incommingBytes]
    cases op with
    | asyncReceive => exact .inr (.inr ⟨bytes, rfl, rfl, rfl⟩)
    | asyncWrite msg => exact .inl (List.append_nil _)
    | own op => exact .inl (List.append_nil _)

theorem calls_handle_ok (t : ClientTransport β) (op : SocketOp ConnectOp) (bytes : List β) :
    (t.handle op (.ok bytes)).calls = match op with
      | .own _ => [.onConnected]
      | _ => [] := by
  cases op with
  | asyncReceive => rfl
  | asyncWrite msg => exact Transport.onWritten_ok_calls _ _
  | own op =>
    change (Transport.open' _).calls = _
    simp only [Transport.open']
    split <;> rfl

theorem handle_ok_calls (t : ClientTransport β) (op : SocketOp ConnectOp) (bytes : List β) :
    ∀ call ∈ (t.handle op (.ok bytes)).calls, call = .onConnected := by
  rw [calls_handle_ok]
  cases op <;> simp

end ClientTransport

end ThriftAsio
