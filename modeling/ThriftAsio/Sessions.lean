import ThriftAsio.Machine
import ThriftAsio.Talker
import ThriftAsio.Transport

/-! `thrift_asio_connection_management_mixin` and `talkServer_handler`. Protocol objects are
numbered in the order in which `clients_` compares their pointers, session objects in the order
they are made. The message a session's client writes goes to the protocol it was made with.
`current_client_->on_subscribe_succeeded(..)` is taken as a call on its member `client`, as in
the other methods. No method throws, so the processor's `catch` has nothing to do. -/

namespace ThriftAsio
open Machine

abbrev Protocol := Nat

abbrev ClientPtr := Nat

structure Session where
  userName : Bytes
  client : Protocol
  deriving DecidableEq, Repr

structure Handler where
  clients : Std.ExtTreeMap Protocol ClientPtr
  currentClient : Option ClientPtr
  /-- The session objects, by pointer; only the first `made` ones exist. -/
  sessions : ClientPtr → Session
  made : Nat

/-- The handler after a call, and the messages it has written, with the protocols they went to. -/
structure Answer where
  handler : Handler
  sent : List (Protocol × OutMessage)

namespace Handler

def create : Handler := ⟨∅, none, fun _ => ⟨[], 0⟩, 0⟩

def onClientConnected (h : Handler) (outputProtocol : Protocol) : Except Fault Handler :=
  if outputProtocol ∈ h.clients then .error .assertionFailed
  else .ok
    { clients := h.clients.insertIfNew outputProtocol h.made
      currentClient := some h.made
      sessions := Function.update h.sessions h.made ⟨[], outputProtocol⟩
      made := h.made + 1 }

def onClientDisconnected (h : Handler) (outputProtocol : Protocol) : Except Fault Handler :=
  if outputProtocol ∈ h.clients then
    let erased := { h with clients := h.clients.erase outputProtocol }
    if outputProtocol ∈ erased.clients then .error .assertionFailed else .ok erased
  else .error .assertionFailed

def beforeProcess (h : Handler) (outputProtocol : Protocol) : Except Fault Handler :=
  match h.clients[outputProtocol]? with
  | none => .error .assertionFailed
  | some client => .ok { h with currentClient := some client }

def afterProcess (h : Handler) : Handler := { h with currentClient := none }

def assertCurrent (h : Handler) : Except Fault ClientPtr :=
  match h.currentClient with
  | none => .error .assertionFailed
  | some client => .ok client

def reply (h : Handler) (client : ClientPtr) (call : ClientCall) : Protocol × OutMessage :=
  ((h.sessions client).client, .call call)

def getVersion (h : Handler) : Except Fault Answer := do
  let client ← h.assertCurrent
  return ⟨h, [h.reply client (.onGetVersion (bytes "0.0.1"))]⟩

/-- The entry at which the loop in `setUserName` stops. -/
def holder (h : Handler) (name : Bytes) : Option (Protocol × ClientPtr) :=
  h.clients.toList.find? fun p => (h.sessions p.2).userName = name

def rename (h : Handler) (client : ClientPtr) (name : Bytes) : Handler :=
  { h with sessions :=
      Function.update h.sessions client { h.sessions client with userName := name } }

def setUserName (h : Handler) (name : Bytes) : Except Fault Answer :=
  match h.holder name with
  | some p => return ⟨h, [h.reply p.2 (.onSetUserNameFailed (bytes "username already taken"))]⟩
  | none => do
    let client ← h.assertCurrent
    let named := h.rename client name
    return ⟨named, [named.reply client .onSetUserNameSucceeded]⟩

def subscribe (h : Handler) (_topic : Bytes) : Except Fault Answer := do
  let client ← h.assertCurrent
  return ⟨h, [h.reply client (.onSubscribeSucceeded 123)]⟩

def unsubscribe (h : Handler) (_topic : Bytes) : Except Fault Answer := do
  let client ← h.assertCurrent
  return ⟨h, [h.reply client .onUnsubscribeSucceeded]⟩

def postShip (h : Handler) (_channel : Bytes) (ship : Ship) : Except Fault Answer := do
  let client ← h.assertCurrent
  let others := h.clients.toList.filter fun s => s.2 ≠ client
  return ⟨h, others.map fun s =>
    h.reply s.2 (.onSubscribeShip (h.sessions client).userName ship)⟩

/-- What the processor does after it has read a message from the peer of `oprot`. -/
def process (h : Handler) (oprot : Protocol) : Request → Except Fault Answer
  | .refused => return ⟨h, []⟩
  | .unknownMethod fname seqid =>
    return ⟨h, [(oprot, .unknownMethod fname seqid
      (bytes "Invalid method name: '" ++ fname ++ bytes "'"))]⟩
  | .getVersion => h.getVersion
  | .setUserName name => h.setUserName name
  | .subscribe topic => h.subscribe topic
  | .unsubscribe topic => h.unsubscribe topic
  | .postShip channel ship => h.postShip channel ship

def serve (h : Handler) (oprot : Protocol) (request : Request) : Except Fault Answer := do
  let before ← h.beforeProcess oprot
  let answer ← before.process oprot request
  return { answer with handler := answer.handler.afterProcess }

inductive Event where
  | connected (p : Protocol)
  | disconnected (p : Protocol)
  | request (p : Protocol) (r : Request)

def act (h : Handler) : Event → Except Fault Handler
  | .connected p => h.onClientConnected p
  | .disconnected p => h.onClientDisconnected p
  | .request p r => (h.serve p r).map Answer.handler

def step (s : Except Fault Handler) (e : Event) : Except Fault Handler := s.bind fun h => h.act e

def nameOf (h : Handler) (p : Protocol) : Option Bytes :=
  h.clients[p]?.map fun c => (h.sessions c).userName

/-- Every entry of `clients_` has a session of its own, made for the entry's protocol. -/
structure Wellformed (h : Handler) : Prop where
  made : ∀ (p : Protocol) c, h.clients[p]? = some c → c < h.made
  own : ∀ (p : Protocol) c, h.clients[p]? = some c → (h.sessions c).client = p

theorem wellformed_create : create.Wellformed := by
  constructor <;> simp [create]

theorem Wellformed.injective {h : Handler} (ok : h.Wellformed) {p q : Protocol} {c : ClientPtr}
    (hp : h.clients[p]? = some c) (hq : h.clients[q]? = some c) : p = q := by
  rw [← ok.own p c hp, ok.own q c hq]

theorem connected_spec {h h' : Handler} {p : Protocol} (done : h.onClientConnected p = .ok h') :
    h.clients[p]? = none ∧ h'.made = h.made + 1 ∧ h'.currentClient = some h.made ∧
      h'.sessions = Function.update h.sessions h.made ⟨[], p⟩ ∧
      ∀ q, h'.clients[q]? = if p = q then some h.made else h.clients[q]? := by
  simp only [onClientConnected] at done
  split at done
  · cases done
  · rename_i fresh
    obtain rfl := Except.ok.inj done
    refine ⟨by simpa using fresh, rfl, rfl, rfl, fun q => ?_⟩
    simp only [Std.ExtTreeMap.getElem?_insertIfNew, Nat.compare_eq_eq]
    by_cases same : p = q
    · subst same
      simp [fresh]
    · simp [same]

theorem disconnected_spec {h h' : Handler} {p : Protocol}
    (done : h.onClientDisconnected p = .ok h') :
    p ∈ h.clients ∧ h' = { h with clients := h.clients.erase p } := by
  simp only [onClientDisconnected] at done
  split at done
  · split at done
    · cases done
    · exact ⟨‹_›, (Except.ok.inj done).symm⟩
  · cases done

theorem onClientDisconnected_ok {h : Handler} {p : Protocol} (connected : p ∈ h.clients) :
    h.onClientDisconnected p = .ok { h with clients := h.clients.erase p } := by
  simp [onClientDisconnected, connected]

theorem onClientConnected_ok {h : Handler} {p : Protocol} (fresh : p ∉ h.clients) :
    ∃ h', h.onClientConnected p = .ok h' := ⟨_, if_neg fresh⟩

theorem process_ok (h : Handler) (oprot : Protocol) (r : Request) {c : ClientPtr}
    (current : h.currentClient = some c) : ∃ a, h.process oprot r = .ok a := by
  have asserted : h.assertCurrent = .ok c := by simp only [assertCurrent, current]
  cases r with
  | refused => exact ⟨_, rfl⟩
  | unknownMethod fname seqid => exact ⟨_, rfl⟩
  | getVersion => exact ⟨_, by rw [process, getVersion, asserted]; rfl⟩
  | setUserName name =>
    cases found : h.holder name with
    | some e => exact ⟨_, by simp only [process, setUserName, found]; rfl⟩
    | none => exact ⟨_, by simp only [process, setUserName, found, asserted]; rfl⟩
  | subscribe topic => exact ⟨_, by rw [process, subscribe, asserted]; rfl⟩
  | unsubscribe topic => exact ⟨_, by rw [process, unsubscribe, asserted]; rfl⟩
  | postShip channel ship => exact ⟨_, by rw [process, postShip, asserted]; rfl⟩

@[simp] theorem reply_rename (h : Handler) (c : ClientPtr) (name : Bytes) (d : ClientPtr)
    (call : ClientCall) : (h.rename c name).reply d call = h.reply d call := by
  by_cases same : d = c
  · subst same
    simp [reply, rename]
  · simp [reply, rename, same]

theorem serve_eq {h : Handler} {p : Protocol} {c : ClientPtr} (connected : h.clients[p]? = some c)
    (r : Request) :
    h.serve p r = ({ h with currentClient := some c }.process p r).map fun a : Answer =>
      { a with handler := a.handler.afterProcess } := by
  have before : h.beforeProcess p = .ok { h with currentClient := some c } := by
    simp only [beforeProcess, connected]
  rw [serve, before]
  change Except.bind ({ h with currentClient := some c }.process p r) _ = _
  cases process _ p r <;> rfl

theorem serve_taken {h : Handler} {p : Protocol} {c : ClientPtr}
    (connected : h.clients[p]? = some c) {name : Bytes} {e : Protocol × ClientPtr}
    (taken : h.holder name = some e) :
    h.serve p (.setUserName name) = .ok ⟨{ h with currentClient := none },
      [h.reply e.2 (.onSetUserNameFailed (bytes "username already taken"))]⟩ := by
  have taken' : { h with currentClient := some c }.holder name = some e := taken
  rw [serve_eq connected]
  simp only [process, setUserName, taken']
  rfl

theorem serve_free {h : Handler} {p : Protocol} {c : ClientPtr} (connected : h.clients[p]? = some c)
    {name : Bytes} (free : h.holder name = none) :
    h.serve p (.setUserName name) = .ok ⟨{ h.rename c name with currentClient := none },
      [h.reply c .onSetUserNameSucceeded]⟩ := by
  have free' : { h with currentClient := some c }.holder name = none := free
  rw [serve_eq connected, ← reply_rename h c name]
  simp only [process, setUserName, free']
  rfl

theorem serve_other {h : Handler} {p : Protocol} {c : ClientPtr}
    (connected : h.clients[p]? = some c) {r : Request} (other : ∀ name, r ≠ .setUserName name) :
    ∃ sent, h.serve p r = .ok ⟨{ h with currentClient := none }, sent⟩ := by
  rw [serve_eq connected]
  cases r with
  | setUserName name => exact absurd rfl (other name)
  | refused => exact ⟨_, rfl⟩
  | unknownMethod fname seqid => exact ⟨_, rfl⟩
  | getVersion => exact ⟨_, rfl⟩
  | subscribe topic => exact ⟨_, rfl⟩
  | unsubscribe topic => exact ⟨_, rfl⟩
  | postShip channel ship => exact ⟨_, rfl⟩

theorem serve_cases {h : Handler} {p : Protocol} {r : Request} {a : Answer}
    (served : h.serve p r = .ok a) : ∃ c, h.clients[p]? = some c ∧
      (a.handler = { h with currentClient := none } ∨
        ∃ name, a.handler = { h.rename c name with currentClient := none }) := by
  cases connected : h.clients[p]? with
  | none => simp [serve, beforeProcess, connected] at served; cases served
  | some c =>
    refine ⟨c, rfl, ?_⟩
    by_cases naming : ∃ name, r = .setUserName name
    · obtain ⟨name, rfl⟩ := naming
      cases found : h.holder name with
      | none =>
        rw [serve_free connected found] at served
        obtain rfl := Except.ok.inj served
        exact .inr ⟨name, rfl⟩
      | some e =>
        rw [serve_taken connected found] at served
        obtain rfl := Except.ok.inj served
        exact .inl rfl
    · obtain ⟨sent, served'⟩ := serve_other connected fun name h => naming ⟨name, h⟩
      rw [served'] at served
      obtain rfl := Except.ok.inj served
      exact .inl rfl

theorem serve_clients {h : Handler} {p : Protocol} {r : Request} {a : Answer}
    (served : h.serve p r = .ok a) : a.handler.clients = h.clients := by
  obtain ⟨c, -, same | ⟨name, same⟩⟩ := serve_cases served <;> rw [same]
  rfl

theorem serve_idle {h : Handler} {p : Protocol} {r : Request} {a : Answer}
    (served : h.serve p r = .ok a) : a.handler.currentClient = none := by
  obtain ⟨c, -, same | ⟨name, same⟩⟩ := serve_cases served <;> rw [same]

theorem Wellformed.serve_sessions {h : Handler} (ok : h.Wellformed) {p q : Protocol} {r : Request}
    {a : Answer} (served : h.serve p r = .ok a) (other : q ≠ p) {client : ClientPtr}
    (hq : h.clients[q]? = some client) : a.handler.sessions client = h.sessions client := by
  obtain ⟨c, hp, same | ⟨name, same⟩⟩ := serve_cases served
  · rw [same]
  · have apart : client ≠ c := fun equal => other (ok.injective (equal ▸ hq) hp)
    rw [same]
    exact Function.update_of_ne apart _ _

theorem mem_connected {h h' : Handler} {p : Protocol} (done : h.onClientConnected p = .ok h')
    (q : Protocol) : q ∈ h'.clients ↔ q = p ∨ q ∈ h.clients := by
  obtain ⟨-, -, -, -, clients⟩ := connected_spec done
  rw [Std.ExtTreeMap.mem_iff_isSome_getElem?, Std.ExtTreeMap.mem_iff_isSome_getElem?, clients]
  by_cases same : p = q
  · rw [if_pos same]
    exact iff_of_true rfl (.inl same.symm)
  · rw [if_neg same]
    exact ⟨.inr, fun other => other.resolve_left (Ne.symm same)⟩

theorem mem_disconnected {h h' : Handler} {p : Protocol}
    (done : h.onClientDisconnected p = .ok h') (q : Protocol) :
    q ∈ h'.clients ↔ q ≠ p ∧ q ∈ h.clients := by
  obtain ⟨-, rfl⟩ := disconnected_spec done
  rw [Std.ExtTreeMap.mem_erase, ne_eq, ne_eq, Nat.compare_eq_eq, eq_comm]

end Handler

end ThriftAsio
