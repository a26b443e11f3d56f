import ThriftAsio.FramesProcessed
import ThriftAsio.OutboundStream
import ThriftAsio.Room

/-! What the server writes to a connection. As long as its socket is open, the buffers given to
`async_write` and those that wait behind the one in flight are the frames of the messages for its
client, as they come in the log. With this the server is a room down to the bytes, and the ships
that are shown to a receiver are so too. -/

namespace ThriftAsio
open Proactor Asio Machine

def OutMessage.ship? : OutMessage → Option (Bytes × Ship)
  | .call (.onSubscribeShip name ship) => some (name, ship)
  | _ => none

def Post.frame (W : OutputProtocol) (x : Post) : Bytes :=
  OutputProtocol.flush (W.talkClientClient (.onSubscribeShip x.userName x.ship))

namespace Transport

variable {κ β : Type} {t : Transport κ β}

/-- From one state of the transport to the other it has taken on these bytes, if it is still
open. -/
def Wrote (bytes : List UInt8) (t t' : Transport κ β) : Prop :=
  t'.isOpen = true → t.isOpen = true ∧ t'.accepted = t.accepted ++ bytes

theorem Wrote.nothing {t' : Transport κ β} (isOpen : t'.isOpen = t.isOpen)
    (accepted : t'.accepted = t.accepted) : Wrote [] t t' :=
  fun opened => ⟨isOpen ▸ opened, accepted.trans (List.append_nil _).symm⟩

theorem wrote_write (buf : List UInt8) : Wrote buf t (t.write buf) := by
  refine fun opened => ⟨?_, accepted_write t buf⟩
  simp only [write] at opened
  split at opened <;> exact opened

theorem wrote_close : Wrote [] t t.close.state := by
  intro opened
  rw [isOpen_close] at opened
  cases opened

theorem wrote_handle (op : SocketOp κ) (r : Completion β) : Wrote [] t (t.handle op r).state := by
  cases op with
  | asyncReceive =>
    cases r with
    | error ec => exact wrote_close
    | ok bytes => exact .nothing rfl (accepted_onReceive_ok t bytes)
  | asyncWrite msg =>
    cases r with
    | error ec => exact wrote_close
    | ok bytes =>
      refine .nothing ?_ (accepted_onWritten_ok t bytes)
      change (t.onWritten (.ok bytes)).state.socket.isOpen = t.socket.isOpen
      rcases t.onWritten_ok_socket bytes with same | ⟨msg', started⟩
      · rw [same]
      · rw [started, Socket.isOpen_start]
  | own op => exact .nothing rfl rfl

end Transport

theorem Connection.wrote_finish (c : Connection) (i : Nat) (r : Except ErrorCode Unit) :
    c.transport.Wrote [] (c.finish i r).transport := by
  unfold finish
  split
  · exact .nothing rfl rfl
  · split <;> exact .nothing rfl rfl
  · exact .nothing rfl rfl
  · exact .nothing rfl rfl

theorem Chains.strangers {T : Thrift} {i : Option Input} {a b : Chains} (ok : a.Consistent)
    (silent : ∀ q, a.links q = none → messagesTo q a.log = []) (h : Step T i a b) :
    ∀ q, b.links q = none → messagesTo q b.log = [] := by
  intro q absent
  have other : ∀ {p l}, (a.setLink p l).links q = none → a.links q = none := by
    intro p l none_left
    by_cases same : q = p
    · subst same
      simp at none_left
    · simpa [Chains.setLink, same] using none_left
  have same : ∀ more, messagesTo q more = [] →
      messagesTo q (a.log ++ more) = messagesTo q a.log := by
    intro more nothing
    rw [messagesTo, List.filterMap_append, ← messagesTo, ← messagesTo, nothing, List.append_nil]
  cases h with
  | stutter => exact silent q absent
  | arrived link bytes => exact silent q (other absent)
  | completed link reading enough => exact silent q (other absent)
  | failed link ec => exact silent q (other absent)
  | sized link read next => exact silent q (other absent)
  | accepted fresh made => exact (same _ rfl).trans (silent q (other absent))
  | disconnected link failed erased => exact (same _ rfl).trans (silent q (other absent))
  | @served _ p l link n payload read request decoded answer served r next =>
    refine (same _ ?_).trans (silent q (other absent))
    have unknown : a.handler.nameOf q = none := by
      have missing : q ∉ a.handler.clients := fun known => ok.known q known (other absent)
      rw [Handler.nameOf, Std.ExtTreeMap.getElem?_eq_none missing, Option.map_none]
    obtain ⟨client, connected, -⟩ := Handler.serve_cases served
    have member : a.handler.nameOf p ≠ none := by simp [Handler.nameOf, connected]
    rw [messagesTo_serving, (ok.handler.serve_room served).2, Room.told_stranger member unknown]

namespace Server

variable {T : Thrift} {s : Server} {q : Protocol}

/-- What was written to a connection, as long as its socket is open. -/
def Output (T : Thrift) (q : Protocol) (s : Server) : Prop :=
  ∀ c, s.connections q = some c → c.transport.isOpen = true →
    c.transport.accepted = (messagesTo q s.log).flatMap T.frame

theorem Output.onConnection (ok : s.Output T q) {p : Protocol} {f : Connection → Connection}
    (silent : ∀ c, s.connections p = some c → c.transport.Wrote [] (f c).transport) :
    (s.onConnection p f).Output T q := by
  intro d hd opened
  by_cases same : p = q
  · subst same
    obtain ⟨c, hc, rfl⟩ : ∃ c, s.connections p = some c ∧ f c = d := by
      simpa [Server.onConnection] using hd
    obtain ⟨before, accepted⟩ := silent c hc opened
    rw [accepted, List.append_nil]
    exact ok c hc before
  · rw [onConnection_other same] at hd
    exact ok d hd opened

theorem Output.startRead (ok : s.Output T q) (p : Protocol) (op : ReadOp) :
    (s.onConnection p (·.startRead op)).Output T q :=
  ok.onConnection fun c _ => .nothing rfl (Transport.accepted_start c.transport rfl)

theorem Output.logged (ok : s.Output T q) {s' : Server} (more : List Call)
    (connections : s'.connections = s.connections) (log : s'.log = s.log ++ more)
    (silent : messagesTo q more = []) : s'.Output T q := by
  intro c h opened
  rw [log, messagesTo, List.filterMap_append, ← messagesTo, ← messagesTo, silent, List.append_nil]
  exact ok c (connections ▸ h) opened

theorem Output.send (ok : s.Output T q) (m : Protocol × OutMessage) :
    (s.send T m).Output T q := by
  intro d hd opened
  have log : messagesTo q (s.send T m).log =
      messagesTo q s.log ++ if m.1 = q then [m.2] else [] := by
    rw [Server.send, messagesTo, List.filterMap_append, ← messagesTo]
    by_cases same : m.1 = q <;> simp [Call.messageTo, same]
  rw [log]
  by_cases same : m.1 = q
  · subst same
    obtain ⟨c, hc, rfl⟩ : ∃ c, s.connections m.1 = some c ∧
        c.onTransport (·.write (T.frame m.2)) = d := by
      simpa [Server.send, Server.write, Server.onConnection] using hd
    obtain ⟨before, accepted⟩ := Transport.wrote_write (T.frame m.2) opened
    refine accepted.trans ?_
    rw [ok c hc before, if_pos rfl, List.flatMap_append, List.flatMap_singleton]
  · rw [if_neg same, List.append_nil]
    refine ok d (Eq.trans ?_ hd) opened
    exact (onConnection_other same).symm

theorem Output.sends (ok : s.Output T q) (msgs : List (Protocol × OutMessage)) :
    (msgs.foldl (Server.send T) s).Output T q := by
  induction msgs generalizing s with
  | nil => exact ok
  | cons m msgs ih => exact ih (ok.send m)

theorem Output.process (ok : s.Output T q) (p : Protocol) (payload : List UInt8) :
    (s.process T p payload).Output T q := by
  simp only [Server.process]
  split
  · exact ok.logged [_] rfl rfl rfl
  · split
    · exact ok.logged [_] rfl rfl rfl
    · refine Output.logged (Output.sends ?_ _) [_] rfl rfl rfl
      exact ok.logged [_] rfl rfl rfl

theorem Output.onFrameData (ok : s.Output T q) (p : Protocol) (payload : List UInt8) :
    (s.onFrameData T p payload).Output T q := by
  simp only [Server.onFrameData]
  split
  · exact ok
  · rename_i h found
    have before : Output T q { s with handler := h, log := s.log ++ [.beforeProcess p] } :=
      ok.logged [_] rfl rfl rfl
    split
    · exact before.process p payload
    · refine Output.startRead (Output.logged (before.process p payload) [.afterProcess] ?_ ?_
        rfl) p _ <;> rfl

theorem Output.handle (ok : s.Output T q) {p : Protocol} {c : Connection}
    (h : s.connections p = some c) (i : Nat) (op : SocketOp ReadOp) (r : Completion UInt8) :
    (s.handle T p (c.transport.take i) op r).Output T q := by
  have taken : (s.onConnection p (·.onTransport fun _ => c.transport.take i)).Output T q := by
    refine ok.onConnection fun d hd => ?_
    obtain rfl := Option.some.inj (h.symm.trans hd)
    exact .nothing rfl rfl
  have own : ∀ op r, Output T q { s.onConnection p (·.onTransport fun _ =>
      ((c.transport.take i).handle op r).state) with
        fault := ((c.transport.take i).handle op r).fault } := by
    intro op r
    have handled : (s.onConnection p (·.onTransport fun _ =>
        ((c.transport.take i).handle op r).state)).Output T q := by
      refine ok.onConnection fun d hd => ?_
      obtain rfl := Option.some.inj (h.symm.trans hd)
      exact Transport.wrote_handle (t := c.transport.take i) op r
    exact handled.logged [] rfl (List.append_nil _).symm rfl
  cases op with
  | asyncReceive => exact own _ r
  | asyncWrite msg => exact own _ r
  | own m =>
    cases r with
    | error ec =>
      have gone : (Server.onDisconnected (s.onConnection p (·.onTransport fun _ =>
          c.transport.take i)) p).Output T q := by
        simp only [Server.onDisconnected]
        split
        · exact taken
        · exact taken.logged [_] rfl rfl rfl
      cases m <;> exact gone
    | ok bytes =>
      cases m with
      | frameSize => exact taken.startRead p _
      | frameData n => exact taken.onFrameData p bytes

theorem Output.onAccept (ok : s.Output T q) {p : Protocol} (silent : messagesTo p s.log = []) :
    (s.onAccept p).Output T q := by
  simp only [Server.onAccept]
  split
  · exact ok
  · refine Output.startRead (fun d hd opened => ?_) p _
    rename_i h made
    have log : messagesTo q (s.log ++ [.connected p s.handler.made]) = messagesTo q s.log := by
      simp [messagesTo, Call.messageTo]
    rw [log]
    by_cases same : q = p
    · subst same
      obtain rfl : Connection.create = d := by simpa using hd
      rw [silent]
      rfl
    · exact ok d (by simpa [same] using hd) opened

theorem Output.step (ok : s.Output T q)
    (strangers : s.fault = none → ∀ q, s.connections q = none → messagesTo q s.log = [])
    {e : Event} (inside : ∀ frame, e ≠ .write q frame) : (s.step T e).Output T q := by
  by_cases running : s.fault = none
  swap
  · rwa [step_stopped running]
  rw [step_running running]
  cases e with
  | finishAccept i r => exact ok
  | stopListening => exact ok
  | write p frame =>
    intro d hd opened
    have other : p ≠ q := fun same => inside frame (same ▸ rfl)
    exact ok d ((onConnection_other other).symm.trans hd) opened
  | arrive p bytes => exact ok.onConnection fun _ _ => .nothing rfl rfl
  | finish p i r => exact ok.onConnection fun c _ => c.wrote_finish i r
  | runAccept i p =>
    simp only [act]
    split
    · exact ok
    · rename_i fresh
      have accepted : (Server.onAccept { s with acceptor := s.acceptor.take i } p).Output T q :=
        Output.onAccept (s := { s with acceptor := s.acceptor.take i }) ok
          (strangers running p fresh)
      split <;> exact accepted
    · exact ok
  | run p i =>
    simp only [act]
    cases h : s.connections p with
    | none => exact ok
    | some c =>
      cases finished : ready c.transport.socket.ops i with
      | none =>
        simp only [finished]
        exact ok
      | some found =>
        simp only [finished]
        exact ok.handle h i _ _

/-- What a server keeps for a connection to which nobody else writes. -/
structure Writes (T : Thrift) (q : Protocol) (s : Server) : Prop where
  valid : s.fault = none → s.Valid
  strangers : s.fault = none → ∀ p, s.connections p = none → messagesTo p s.log = []
  output : s.Output T q

theorem writes_create : Writes T q create :=
  ⟨fun _ => valid_create, fun _ _ _ => rfl, fun c h => by cases h⟩

theorem Writes.step (ok : s.Writes T q) {e : Event} (inside : ∀ frame, e ≠ .write q frame) :
    (s.step T e).Writes T q := by
  refine ⟨valid_of_running ok.valid, fun after p absent => ?_, ok.output.step ok.strangers inside⟩
  have running : s.fault = none := by
    by_contra stopped
    rw [step_stopped stopped] at after
    exact stopped after
  have valid := ok.valid running
  obtain ⟨-, moved⟩ := step_chains valid.sound valid.consistent (valid.returns after)
  refine Chains.strangers valid.consistent (fun p absent => ?_) moved p (by simp [chains, absent])
  exact ok.strangers running p (by simpa [chains] using absent)

theorem writes_run (T : Thrift) {es : List Event} (inside : ∀ frame, Event.write q frame ∉ es) :
    (run (step T) create es).Writes T q := by
  refine run_invariant_on (fun _ e kept (mem : e ∈ es) => kept.step fun frame same => ?_)
    writes_create fun _ mem => mem
  exact inside frame (same ▸ mem)

/-- As long as the socket of a connection is open, what was given to `async_write` and what waits
behind that are the frames of the messages for its client, whatever the other connections do; one
`async_write` is outstanding while there is something to send, and none otherwise. -/
theorem written_of_messages (T : Thrift) {p : Protocol} (es : List Event)
    (inside : ∀ frame, Event.write p frame ∉ es) {c : Connection}
    (h : (run (step T) create es).connections p = some c) (opened : c.transport.isOpen = true) :
    content c.transport.handed ++ content c.transport.outboundMessages.tail =
        (messagesTo p (run (step T) create es).log).flatMap T.frame ∧
      ((run (step T) create es).fault = none →
        c.transport.inFlight = c.transport.outboundMessages.head?.toList) := by
  have ok := writes_run T inside
  refine ⟨ok.output c h opened, fun running => ?_⟩
  exact ((ok.valid running).sound.connections p c h).matched

theorem written_of_messages_interleaved :
    ∃ c, (run (step BinaryProtocol.library) create interleaved).connections 7 = some c ∧
      content c.transport.handed ++ content c.transport.outboundMessages.tail =
        [OutMessage.call (.onGetVersion (bytes "0.0.1")),
          .call (.onGetVersion (bytes "0.0.1"))].flatMap BinaryProtocol.frame := by
  have opened : ((run (step BinaryProtocol.library) create interleaved).connections 7).any
      (·.transport.isOpen) = true := by decide +kernel
  have inside : ∀ frame, Event.write 7 frame ∉ interleaved := by simp [interleaved]
  have told : messagesTo 7 (run (step BinaryProtocol.library) create interleaved).log =
      [.call (.onGetVersion (bytes "0.0.1")), .call (.onGetVersion (bytes "0.0.1"))] := by
    decide +kernel
  obtain ⟨c, h, isOpen⟩ := (Option.any_eq_true ..).mp opened
  have written := (written_of_messages BinaryProtocol.library interleaved inside h isOpen).1
  rw [told] at written
  exact ⟨c, h, written⟩

/-- Whatever happens to the server, it is a room: the sessions that it knows are the members, and
what it has written to each connection is what that member was told, in this order. As long as
the socket of the connection is open, these messages are the bytes that its transport has taken
on. -/
theorem refines_room (T : Thrift) (es : List Event) :
    let s := run (step T) create es
    run Room.step Room.empty (roomEvents T s.log) = s.handler.nameOf ∧
      (∀ q, messagesTo q s.log =
        collect Room.step (fun room e => room.told q e) Room.empty (roomEvents T s.log)) ∧
      ∀ q, (∀ frame, Event.write q frame ∉ es) → s.Output T q := by
  intro s
  have room : s.chains.InRoom T := inRoom_run T es
  exact ⟨room.members, room.told, fun q inside => (writes_run T inside).output⟩

theorem received_messagesTo (r : Protocol) (log : List Call) :
    received r log = (messagesTo r log).filterMap OutMessage.ship? := by
  rw [received, messagesTo, List.filterMap_filterMap]
  refine List.filterMap_congr fun entry _ => ?_
  cases entry with
  | sent p m =>
    have shows : Call.shipTo r (.sent p m) = if p = r then m.ship? else none := by
      cases m with
      | call call => cases call <;> simp [Call.shipTo, OutMessage.ship?]
      | unknownMethod fname seqid what => simp [Call.shipTo, OutMessage.ship?]
    rw [shows, Call.messageTo]
    split <;> rfl
  | _ => rfl

theorem frames_shown {W : OutputProtocol}
    (generated : ∀ name ship, T.frame (.call (.onSubscribeShip name ship)) =
      OutputProtocol.flush (W.talkClientClient (.onSubscribeShip name ship)))
    (msgs : List OutMessage) : (msgs.filter (·.ship?.isSome)).map T.frame =
      (msgs.filterMap OutMessage.ship?).map fun x =>
        OutputProtocol.flush (W.talkClientClient (.onSubscribeShip x.1 x.2)) := by
  induction msgs with
  | nil => rfl
  | cons m msgs ih =>
    rw [List.filter_cons, List.filterMap_cons]
    cases shows : m.ship? with
    | none => simpa [shows] using ih
    | some x =>
      have frame : T.frame m =
          OutputProtocol.flush (W.talkClientClient (.onSubscribeShip x.1 x.2)) := by
        unfold OutMessage.ship? at shows
        split at shows
        · obtain rfl := Option.some.inj shows
          exact generated _ _
        · cases shows
      rw [Option.isSome_some, if_pos rfl, List.map_cons, List.map_cons, frame, ih]

/-- In every run each receiver is shown, once and in the order of processing, what the others
post while it is connected, under the name that the poster has then; these are the
`on_subscribeShip` frames among all that its transport takes on. So the posts of one sender arrive
in order, and two receivers agree on the order of what both are shown. -/
theorem broadcast_in_order (T : Thrift) {W : OutputProtocol}
    (generated : ∀ name ship, T.frame (.call (.onSubscribeShip name ship)) =
      OutputProtocol.flush (W.talkClientClient (.onSubscribeShip name ship)))
    (es : List Event) (r : Protocol) :
    let s := run (step T) create es
    let shown := Post.reaching r (posts T es)
    received r s.log = shown.map Post.shown ∧
      ((messagesTo r s.log).filter (·.ship?.isSome)).map T.frame = shown.map (Post.frame W) ∧
      ((∀ frame, Event.write r frame ∉ es) → ∀ c, s.connections r = some c →
        c.transport.isOpen = true →
          content c.transport.handed ++ content c.transport.outboundMessages.tail =
            (messagesTo r s.log).flatMap T.frame) ∧
      (∀ p, (Post.postedBy p shown).Sublist (Post.postedBy p (posts T es))) ∧
      ∀ r', Post.reaching r' shown = Post.reaching r (Post.reaching r' (posts T es)) := by
  intro s shown
  have all : received r s.log = shown.map Post.shown := received_eq T es r
  refine ⟨all, ?_, fun inside c h opened => (writes_run T inside).output c h opened, fun p => ?_,
    fun r' => Post.reaching_comm r r' _⟩
  · rw [frames_shown generated, ← received_messagesTo, all, List.map_map]
    rfl
  · rw [Post.reaching_postedBy]
    exact List.filter_sublist

def shipsPosted : List Event :=
  [.finishAccept 0 (.ok ()), .runAccept 0 1, .finishAccept 0 (.ok ()), .runAccept 0 2,
    .finishAccept 0 (.ok ()), .runAccept 0 3] ++
  frameFrom 2 (BinaryProtocol.setUserName (bytes "bob")) ++ [.finish 2 0 (.ok ()), .run 2 0] ++
  frameFrom 2 (BinaryProtocol.postShip [] {}) ++ [.finish 3 1 (.ok ()), .run 3 1] ++
  frameFrom 3 (BinaryProtocol.postShip [] { timeStamp := 7 })

theorem broadcast_in_order_two :
    let s := run (step BinaryProtocol.library) create shipsPosted
    let frames := BinaryProtocol.writer.talkClientClient
    received 1 s.log = [(bytes "bob", {}), ([], { timeStamp := 7 })] ∧
      ∃ c, s.connections 1 = some c ∧
        content c.transport.handed ++ content c.transport.outboundMessages.tail =
          OutputProtocol.flush (frames (.onSubscribeShip (bytes "bob") {})) ++
            OutputProtocol.flush (frames (.onSubscribeShip [] { timeStamp := 7 })) := by
  intro s frames
  have opened : (s.connections 1).any (·.transport.isOpen) = true := by decide +kernel
  have inside : ∀ frame, Event.write 1 frame ∉ shipsPosted := by simp [shipsPosted, frameFrom]
  have told : messagesTo 1 s.log = [.call (.onSubscribeShip (bytes "bob") {}),
      .call (.onSubscribeShip [] { timeStamp := 7 })] := by decide +kernel
  obtain ⟨c, h, isOpen⟩ := (Option.any_eq_true ..).mp opened
  obtain ⟨-, -, written, -⟩ := broadcast_in_order BinaryProtocol.library
    (W := BinaryProtocol.writer) (fun _ _ => rfl) shipsPosted 1
  have output := written inside c h isOpen
  rw [told] at output
  refine ⟨?_, c, h, output.trans ?_⟩
  · rw [received_messagesTo, told]
    rfl
  · rfl

end Server

end ThriftAsio
