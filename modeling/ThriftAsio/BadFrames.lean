import ThriftAsio.Registry

/-! What a frame that cannot be decoded does to the server. `process` throws between
`before_process` and `after_process`, and nothing on the way to the event loop catches it, so the
handler keeps its current client and the connection its entry, without a read. -/

namespace ThriftAsio.Server
open Proactor Asio Machine

variable {T : Thrift} {s : Server} {p : Protocol} {c : Connection} {i : Nat}

theorem step_stopped (stopped : s.fault ≠ none) (e : Event) : s.step T e = s := by
  simp [step, Option.isSome_iff_ne_none.mpr stopped]

theorem onFrameData_throws {payload : List UInt8} (connected : p ∈ s.handler.clients)
    (broken : ¬ T.Decodes payload) : ∃ h current, s.onFrameData T p payload =
      { s with
        handler := h
        log := s.log ++ [.beforeProcess p, .process p payload current]
        fault := some .thriftException } := by
  have found : s.handler.clients[p]? = some s.handler.clients[p] :=
    Std.ExtTreeMap.getElem?_eq_some_getElem connected
  cases decoded : T.request payload with
  | ok request => exact absurd ⟨request, decoded⟩ broken
  | error e =>
    refine ⟨{ s.handler with currentClient := some s.handler.clients[p] },
      some s.handler.clients[p], ?_⟩
    simp [onFrameData, Handler.beforeProcess, found, process, decoded]

theorem Valid.threw (valid : s.Valid) {payload : List UInt8}
    (h : (Event.run p i).payload? s = some payload) (broken : ¬ T.Decodes payload) :
    ∃ c handler current, s.connections p = some c ∧ s.step T (.run p i) =
      { s.onConnection p (·.onTransport fun _ => c.transport.take i) with
        handler := handler
        log := s.log ++ [.beforeProcess p, .process p payload current]
        fault := some .thriftException } := by
  obtain ⟨_, _, c, n, ⟨⟩, hc, finished⟩ := payload?_eq_some h
  obtain ⟨-, connected, -⟩ := taken_chains valid.sound valid.consistent hc finished
  rw [step_run valid.sound.running hc finished]
  obtain ⟨handler, current, threw⟩ :=
    onFrameData_throws (s := s.onConnection p (·.onTransport fun _ => c.transport.take i))
      connected broken
  exact ⟨c, handler, current, hc, threw⟩

theorem Valid.throws (valid : s.Valid) {payload : List UInt8}
    (h : (Event.run p i).payload? s = some payload) (broken : ¬ T.Decodes payload) :
    (s.step T (.run p i)).fault = some .thriftException := by
  obtain ⟨c, handler, current, -, threw⟩ := valid.threw h broken
  rw [threw]

theorem not_returns {e : Event} (broken : ¬ s.Returns T e) : ∃ p i payload,
    e = .run p i ∧ (Event.run p i).payload? s = some payload ∧ ¬ T.Decodes payload := by
  simp only [Returns, not_forall] at broken
  obtain ⟨payload, h, broken⟩ := broken
  obtain ⟨p, i, -, -, rfl, -, -⟩ := payload?_eq_some h
  exact ⟨p, i, payload, rfl, h, broken⟩

theorem Valid.returns (valid : s.Valid) {e : Event} (after : (s.step T e).fault = none) :
    s.Returns T e := by
  by_contra broken
  obtain ⟨p, i, payload, rfl, h, broken⟩ := not_returns broken
  rw [valid.throws h broken] at after
  cases after

/-- What holds while the event loop runs is kept without a condition on the frames. -/
theorem valid_of_running {e : Event} (valid : s.fault = none → s.Valid)
    (after : (s.step T e).fault = none) : (s.step T e).Valid := by
  have running : s.fault = none := by
    by_contra stopped
    rw [step_stopped stopped] at after
    exact stopped after
  exact (valid running).step ((valid running).returns after)

theorem returns_of_running {es : List Event} (running : (run (step T) create es).fault = none) :
    Along (step T) (Returns T) create es := by
  have never : Along (step T) (fun s e => (s.step T e).fault = none) create es :=
    (along_of_kept (I := fun s : Server => s.fault = none) (fun s e after => by
      by_contra stopped
      rw [step_stopped stopped] at after
      exact stopped after) running).2
  refine along_of_invariant (I := Valid) (fun s e valid after => ?_) valid_create never
  exact ⟨valid.returns after, valid.step (valid.returns after)⟩

/-- The handler of a frame from `p` has done no harm: nothing was thrown, no client is current,
`p` is gone or is read from, and the other clients' sessions and reads are as they were. -/
structure Contained (p : Protocol) (s s' : Server) : Prop where
  caught : s'.fault = none
  idle : s'.handler.currentClient = none
  sender : p ∉ s'.handler.clients ∨ ∃ c o, s'.connections p = some c ∧ c.reads = [o]
  clients : ∀ q : Protocol, q ≠ p → s'.handler.clients[q]? = s.handler.clients[q]?
  sessions : ∀ (q : Protocol) client, q ≠ p → s.handler.clients[q]? = some client →
    s'.handler.sessions client = s.handler.sessions client
  chains : ∀ q, q ≠ p → s'.chains.links q = s.chains.links q

theorem Valid.contains (valid : s.Valid) {payload : List UInt8}
    (h : (Event.run p i).payload? s = some payload) (decodes : T.Decodes payload) :
    Contained p s (s.step T (.run p i)) := by
  obtain ⟨_, _, c, n, ⟨⟩, hc, finished⟩ := payload?_eq_some h
  obtain ⟨request, decoded⟩ := decodes
  obtain ⟨sound, answer, r, served, -, chains⟩ :=
    frameData_handled valid.sound valid.consistent hc finished decoded
  rw [← step_run valid.sound.running hc finished] at sound chains
  have handler : (s.step T (.run p i)).handler = answer.handler := congrArg Chains.handler chains
  have links : (s.step T (.run p i)).chains.links =
      Function.update s.chains.links p (some { c.link with reads := [⟨.frameSize, r⟩] }) :=
    congrArg Chains.links chains
  refine ⟨sound.running, ?_, .inr ?_, fun q other => ?_, fun q client other known => ?_,
    fun q other => ?_⟩
  · rw [handler, Handler.serve_idle served]
  · have own : (s.step T (.run p i)).chains.links p =
        some { c.link with reads := [⟨.frameSize, r⟩] } := by rw [links, Function.update_self]
    obtain ⟨c', hc', link⟩ := links_eq_some.mp own
    exact ⟨c', _, hc', congrArg Link.reads link⟩
  · rw [handler, Handler.serve_clients served]
  · rw [handler]
    exact valid.consistent.handler.serve_sessions served other known
  · rw [links, Function.update_of_ne other]

/-- Whatever the state that the server has reached, processing a frame is contained exactly if
its payload can be decoded. -/
theorem contained_iff (T : Thrift) (es : List Event) (p : Protocol) (i : Nat)
    (payload : List UInt8) (running : (run (step T) create es).fault = none)
    (frame : (Event.run p i).payload? (run (step T) create es) = some payload) :
    Contained p (run (step T) create es) (step T (run (step T) create es) (.run p i)) ↔
      T.Decodes payload := by
  have valid := valid_run (returns_of_running running)
  refine ⟨fun contained => ?_, valid.contains frame⟩
  by_contra broken
  have threw := valid.throws frame broken
  rw [contained.caught] at threw
  cases threw

def oneFrame (payload : List UInt8) : List Event :=
  [.finishAccept 0 (.ok ()), .runAccept 0 7, .arrive 7 (encodeFrame payload),
    .finish 7 0 (.ok ()), .run 7 0, .finish 7 0 (.ok ())]

theorem contained_getVersion :
    Contained 7 (run (step BinaryProtocol.library) create (oneFrame (BinaryProtocol.getVersion 0)))
      (step BinaryProtocol.library (run (step BinaryProtocol.library) create
        (oneFrame (BinaryProtocol.getVersion 0))) (.run 7 0)) :=
  (contained_iff BinaryProtocol.library (oneFrame (BinaryProtocol.getVersion 0)) 7 0
    (BinaryProtocol.getVersion 0) (by decide +kernel) (by decide +kernel)).mpr (by decide +kernel)

/-- The empty payload: the exception ends the loop, the current client stays set, and the sender
stays in `clients_` without a read. -/
theorem empty_frame_escapes :
    let s := run (step BinaryProtocol.library) create (oneFrame [])
    let s' := step BinaryProtocol.library s (.run 7 0)
    s.fault = none ∧ (Event.run 7 0).payload? s = some [] ∧
      s'.fault = some .thriftException ∧ s'.handler.currentClient = some 0 ∧
      7 ∈ s'.handler.clients ∧ (s'.connections 7).map Connection.reads = some [] ∧
      ¬ Contained 7 s s' := by
  intro s s'
  have threw : s'.fault = some .thriftException := by decide +kernel
  refine ⟨by decide +kernel, by decide +kernel, threw, by decide +kernel, by decide +kernel,
    by decide +kernel, fun contained => ?_⟩
  rw [contained.caught] at threw
  cases threw

end ThriftAsio.Server
