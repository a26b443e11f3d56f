import ThriftAsio.EndToEnd
import ThriftAsio.Flowing

/-! Nothing stays under way. Wherever a run of the system has got to, when nothing has failed on a
connection its two ends and the network have only to go on with what they are about until all that
was called on the client has been asked, and all that it is told has been heard. -/

namespace ThriftAsio
open Proactor Asio Machine

namespace Server

variable {N : Wire} {s : Server} {p : Protocol} {c : Connection} {calls : List TalkServerIf}

theorem Kept.returns (kept : s.Kept N.library.toThrift) (laws : N.Lawful)
    (running : s.fault = none) (fits : N.Sends calls)
    (asked : ∀ c, s.connections p = some c → c.arrived <+: encodeFrames (N.requests calls))
    {e : Event} (own : e.On p) : s.Returns N.library.toThrift e := by
  intro payload h
  obtain ⟨q, i, -, -, rfl, -⟩ := payload?_eq_some h
  obtain rfl : q = p := own
  obtain ⟨c, hc, small, arrived⟩ := kept.parsed.next_frame running h
  have begins := arrived.trans (asked c hc)
  rw [← List.append_nil (encodeFrames (ThriftAsio.processed q s.log ++ [payload]))] at begins
  have sent : ThriftAsio.processed q s.log ++ [payload] <+: N.requests calls := by
    refine payloads_prefix (fun f hf => ?_) (fun f hf => ?_) begins
    · rcases List.mem_append.mp hf with old | new
      · exact kept.parsed.small q f old
      · rw [List.mem_singleton.mp new]
        exact small
    · obtain ⟨m, hm, rfl⟩ := List.mem_map.mp hf
      exact (fits m hm).2
  have mem : payload ∈ N.requests calls := sent.subset (by simp)
  obtain ⟨m, hm, rfl⟩ := List.mem_map.mp mem
  exact ⟨m.request, request_talkServerClient laws.readsBack.toReadsBack (fits m hm).1⟩

theorem Kept.told_own {T : Thrift} (kept : s.Kept T) (running : s.fault = none)
    (flows : s.Flows p) {e : Event} (own : e.On p) (returns : s.Returns T e) {call : ClientCall}
    (told : .call call ∈ messagesTo p (s.step T e).log) :
    .call call ∈ messagesTo p s.log ∨ call ∈ replies := by
  have valid := kept.parsed.valid running
  rw [step_running running] at told
  cases e with
  | finish q i r =>
    cases r with
    | error ec => cases own
    | ok u => exact .inl told
  | run q i =>
    obtain rfl : q = p := own
    obtain ⟨c, h, smooth⟩ := flows
    simp only [act, h] at told
    split at told
    · exact .inl told
    · rename_i op r finished
      cases r with
      | error ec => exact absurd rfl (smooth.succeeds _ (ready_mem finished) ec)
      | ok bytes =>
        cases op with
        | asyncReceive => exact .inl told
        | asyncWrite msg => exact .inl told
        | own m =>
          cases m with
          | frameSize => exact .inl told
          | frameData n =>
            obtain ⟨request, decoded⟩ := returns bytes (by simp [Event.payload?, h, finished])
            obtain ⟨-, answer, r, served, -, chains⟩ :=
              frameData_handled valid.sound valid.consistent h finished decoded
            have log : (s.handle T q (c.transport.take i) (.own (.frameData n)) (.ok bytes)).log =
                s.log ++ s.chains.serving q bytes answer :=
              congrArg Chains.log chains
            rw [log, messagesTo, List.filterMap_append, List.mem_append] at told
            refine told.imp_right fun new => ?_
            have answered := (valid.consistent.handler.serve_room served).2 q
            change _ ∈ messagesTo q (s.chains.serving q bytes answer) at new
            rw [Chains.messagesTo_serving, answered] at new
            exact Room.told_self new
  | _ => cases own

theorem Kept.goes_on {T : Thrift} (kept : s.Kept T) (running : s.fault = none)
    (h : s.connections p = some c) (smooth : c.transport.Smooth) (known : p ∈ s.handler.clients)
    (returns : ∀ e : Event, e.On p → s.Returns T e) (busy : ¬ c.Waiting) :
    ∃ e : Event, e.On p ∧ Nears T s p c e ∧ (s.step T e).fault = none := by
  have valid := kept.parsed.valid running
  have intact : ¬ (c.Waiting ∨ c.Failed) := by
    rintro (waiting | ⟨op, ec, reads⟩)
    · exact busy waiting
    · refine Connection.no_failed_read smooth op ec ?_
      rw [reads]
      exact List.mem_singleton.mpr rfl
  obtain ⟨e, own, next⟩ := valid.next (T := T) h known intact
  have still := (step_chains valid.sound valid.consistent (returns e own)).1.running
  exact ⟨e, own, next.resolve_right fun dead => dead still, still⟩

theorem step_written {T : Thrift} (running : s.fault = none) (h : s.connections p = some c)
    (smooth : c.transport.Smooth) {i : Nat} {msg : Message} {bytes : List UInt8}
    (finished : ready c.transport.socket.ops i = some (.asyncWrite msg, .ok bytes)) :
    s.step T (.run p i) = s.onConnection p
      (·.onTransport fun _ => ((c.transport.take i).onWritten (.ok bytes)).state) := by
  rw [step_run running h finished]
  have fault := (smooth.written finished).1
  change { s.onConnection p _ with fault := ((c.transport.take i).onWritten (.ok bytes)).fault } = _
  rw [fault, ← running]
  rfl

end Server

namespace Listener

variable {T : ClientThrift} {l start : Listener}

theorem On.of_same (on : l.On start) {l' : Listener}
    (isOpen : l'.client.transport.socket.isOpen = l.client.transport.socket.isOpen)
    (generation : l'.client.transport.socket.generation =
      l.client.transport.socket.generation) : l'.On start :=
  ⟨isOpen.trans on.1, generation.trans on.2⟩

theorem step_finish (running : l.client.fault = none) (i : Nat)
    (r : Except ErrorCode (List UInt8)) : (l.step T (.finish i r)).client =
      { l.client with transport := { l.client.transport with
          toTransport := l.client.transport.toTransport.finish i (r.map l.client.arrive) } } := by
  rw [step_running T running]
  refine (other_client l _).trans ?_
  rw [Client.step_running running]
  rfl

theorem step_run_ok (running : l.client.fault = none) {i : Nat} {op : SocketOp ConnectOp}
    {bytes : List Arrived}
    (finished : ready l.client.transport.socket.ops i = some (op, .ok bytes)) :
    (l.step T (.run i)).client.fault = ((l.client.taking i).handle op (.ok bytes)).fault ∧
      (l.step T (.run i)).client.transport =
        ((l.client.taking i).handle op (.ok bytes)).state ∧
      ∀ start, l.On start → (l.step T (.run i)).On start := by
  have client : (l.step T (.run i)).client =
      l.client.after ((l.client.taking i).handle op (.ok bytes)) := by
    rw [step_running T running]
    refine (other_client l _).trans ?_
    rw [Client.step_running running]
    simp only [Client.act, finished]
  obtain ⟨timers, calls, after⟩ :=
    Client.after_eq l.client ((l.client.taking i).handle op (.ok bytes))
  have transport : (l.step T (.run i)).client.transport =
      ((l.client.taking i).handle op (.ok bytes)).state := by rw [client, after]
  refine ⟨by rw [client, after], transport, fun start on => ?_⟩
  rcases (l.client.taking i).handle_ok_socket op bytes with same | ⟨op', started⟩
  · refine on.of_same ?_ ?_ <;> rw [transport, same] <;> rfl
  · refine on.of_same ?_ ?_ <;> rw [transport, started] <;> rfl

theorem Polls.same {e : Client.Event} (polls : Polls e) (running : l.client.fault = none) :
    (l.step T e).client.transport.socket = l.client.transport.socket ∧
      (l.step T e).client.transport.outboundMessages =
        l.client.transport.outboundMessages := by
  rw [step_transport, Client.step_running running]
  rcases polls with rfl | rfl
  · rw [Client.act, (Client.update_same l.client).1]
    exact ⟨rfl, rfl⟩
  · have moved := Client.moved_read l.client
    rw [Client.act]
    generalize l.client.read.transport.toTransport = t at moved ⊢
    cases moved <;> exact ⟨rfl, rfl⟩

end Listener

/-- The connection of a client that has called these methods on it, on which nothing has failed. -/
structure Live (N : Wire) (p : Protocol) (begun : Listener) (calls : List TalkServerIf)
    (n : Network) (peer : Peer) (c : Connection) : Prop where
  coherent : n.Coherent N
  found : n.peers p = some peer
  connection : n.server.connections p = some c
  start : peer.start = begun
  calls : peer.calls = calls
  running : n.server.fault = none
  known : p ∈ n.server.handler.clients
  server : c.transport.Smooth
  listening : peer.listener.client.fault = none
  on : peer.listener.On begun
  client : peer.listener.client.transport.Smooth
  answers : N.Answers (messagesTo p n.server.log)

/-- `BUFFER_SIZE`, for which a receive has room. -/
def Transport.bufferSize : Nat := 1024

/-- The two ends of a connection and the network go on with what they are about. -/
def Network.Event.Own (p : Protocol) : Network.Event → Prop
  | .server e => e.On p
  | .client q (.finish _ (.ok _)) => q = p
  | .client q (.run _) => q = p
  | .client q .update => q = p
  | .client q .read => q = p
  | .client _ _ => False
  | .call _ _ => False
  | .up q _ => q = p
  | .down q _ n => q = p ∧ n ≤ Transport.bufferSize

namespace Live

open Network

variable {N : Wire} {p : Protocol} {begun : Listener} {calls : List TalkServerIf} {n : Network}
  {peer : Peer} {c : Connection}

theorem linked (ok : Live N p begun calls n peer c) : Linked N n.server p peer :=
  ok.coherent.peers p peer ok.found

theorem still_on (ok : Live N p begun calls n peer c) : peer.listener.On peer.start := by
  rw [ok.start]
  exact ok.on

theorem still_sends (ok : Live N p begun calls n peer c) (fits : N.Sends calls) :
    N.Sends peer.calls := by
  rw [ok.calls]
  exact fits

theorem onPeer (ok : Live N p begun calls n peer c) {f : Peer → Peer}
    (coherent : (n.onPeer p f).Coherent N) (same : (f peer).start = peer.start)
    (called : (f peer).calls = peer.calls) (listening : (f peer).listener.client.fault = none)
    (on : (f peer).listener.On begun) (smooth : (f peer).listener.client.transport.Smooth) :
    Live N p begun calls (n.onPeer p f) (f peer) c :=
  ⟨coherent, by simp [Network.onPeer, ok.found], ok.connection, same.trans ok.start,
    called.trans ok.calls, ok.running, ok.known, ok.server, listening, on, smooth, ok.answers⟩

theorem step_client (laws : N.Lawful) (ok : Live N p begun calls n peer c) {e : Client.Event}
    (allowed : peer.listener.allows e = true)
    (listening : (peer.listener.step N.library e).client.fault = none)
    (on : (peer.listener.step N.library e).On begun)
    (smooth : (peer.listener.step N.library e).client.transport.Smooth) :
    Live N p begun calls (n.step N (.client p e)) (peer.step N e) c := by
  have stepped : (if peer.listener.allows e then peer.step N e else peer) = peer.step N e :=
    if_pos allowed
  have live := ok.onPeer (f := fun peer => if peer.listener.allows e then peer.step N e else peer)
    (ok.coherent.step laws (.client p e)) (by rw [stepped]; rfl) (by rw [stepped]; rfl)
    (by rw [stepped]; exact listening) (by rw [stepped]; exact on) (by rw [stepped]; exact smooth)
  rwa [stepped] at live

theorem after_finish (ok : Live N p begun calls n peer c) (i : Nat) (bytes : Bytes) :
    let l := peer.listener.step N.library (.finish i (.ok bytes))
    l.client.fault = none ∧ l.On begun ∧ l.client.transport.Smooth ∧
      l.client.transport.toTransport = peer.listener.client.transport.toTransport.finish i
        (.ok (peer.listener.client.arrive bytes)) := by
  have finished := Listener.step_finish (T := N.library) ok.listening i (.ok bytes)
  refine ⟨?_, ok.on.of_same ?_ ?_, ?_, ?_⟩
  · rw [finished]
    exact ok.listening
  · rw [finished]
    rfl
  · rw [finished]
    rfl
  · rw [finished]
    exact ok.client.finish i _
  · rw [finished]
    rfl

theorem serve (ok : Live N p begun calls n peer c) {e : Server.Event} {c' : Connection}
    (coherent : (n.serve N e).Coherent N)
    (running : (n.server.step N.library.toThrift e).fault = none)
    (known : p ∈ (n.server.step N.library.toThrift e).handler.clients)
    (connection : (n.server.step N.library.toThrift e).connections p = some c')
    (smooth : c'.transport.Smooth)
    (answers : N.Answers (messagesTo p (n.server.step N.library.toThrift e).log)) :
    Live N p begun calls (n.serve N e)
      { peer with down := content c'.transport.handed } c' := by
  have answered : peer.answered (some c') = { peer with down := content c'.transport.handed } :=
    if_pos smooth.opened
  refine ⟨coherent, ?_, connection, ok.start, ok.calls, running, known, smooth, ok.listening,
    ok.on, ok.client, answers⟩
  simp [Network.serve, ok.found, connection, answered]

theorem step_server (laws : N.Lawful) (ok : Live N p begun calls n peer c) {e : Server.Event}
    (own : e.On p) {c' : Connection}
    (running : (n.server.step N.library.toThrift e).fault = none)
    (known : p ∈ (n.server.step N.library.toThrift e).handler.clients)
    (connection : (n.server.step N.library.toThrift e).connections p = some c')
    (smooth : c'.transport.Smooth)
    (answers : N.Answers (messagesTo p (n.server.step N.library.toThrift e).log)) :
    Live N p begun calls (n.step N (.server e))
      { peer with down := content c'.transport.handed } c' := by
  have allowed : n.allows e = true := by
    cases e with
    | write q frame => cases own
    | arrive q bytes => cases own
    | _ => rfl
  have stepped : n.step N (.server e) = n.serve N e := if_pos allowed
  have coherent := ok.coherent.step laws (.server e)
  rw [stepped] at coherent ⊢
  exact ok.serve coherent running known connection smooth answers

theorem send_one (laws : N.Lawful) (ok : Live N p begun calls n peer c)
    (some : peer.listener.client.transport.outboundMessages ≠ []) :
    Leads (Network.step N) (Event.Own p) n fun n' => ∃ peer', Live N p begun calls n' peer' c ∧
      peer'.listener.client.transport.sendsLeft <
        peer.listener.client.transport.sendsLeft := by
  obtain ⟨i, msg, r, found, succeeds⟩ := ok.client.front some
  obtain ⟨bytes, done⟩ := Transport.ready_written found succeeds
  have allowed : peer.listener.allows (.finish i (.ok [])) = true := by
    simp [Listener.allows, found]
  obtain ⟨listening, on, smooth, finished⟩ := ok.after_finish i []
  have sent := ok.step_client laws allowed listening on smooth
  have ready : ready (peer.step N (.finish i (.ok []))).listener.client.transport.socket.ops i =
      .some (.asyncWrite msg, .ok bytes) := by
    change ready (peer.listener.step N.library _).client.transport.socket.ops i = _
    rw [finished]
    exact done
  obtain ⟨fault, transport, on⟩ :=
    Listener.step_run_ok (T := N.library) sent.listening ready
  obtain ⟨silent, smooth, less⟩ := sent.client.written ready
  have handled := sent.step_client laws (e := .run i) rfl (fault.trans silent) (on begun sent.on)
    (by rw [transport]; exact smooth)
  have queue : (peer.step N (.finish i (.ok []))).listener.client.transport.sendsLeft =
      peer.listener.client.transport.sendsLeft := by
    change (peer.listener.step N.library _).client.transport.sendsLeft = _
    rw [finished]
    rfl
  have goes : Leads (Network.step N) (Event.Own p) (n.step N (.client p (.finish i (.ok []))))
      fun n' => ∃ peer', Live N p begun calls n' peer' c ∧
        peer'.listener.client.transport.sendsLeft <
          peer.listener.client.transport.sendsLeft := by
    refine .next (e := .client p (.run i)) rfl (.here ⟨_, handled, ?_⟩)
    change ((peer.step N _).listener.step N.library (.run i)).client.transport.sendsLeft < _
    rw [← queue, ← less, transport]
    exact Nat.lt_succ_self _
  exact .next (e := .client p (.finish i (.ok []))) rfl goes

theorem sends (laws : N.Lawful) (ok : Live N p begun calls n peer c) :
    Leads (Network.step N) (Event.Own p) n fun n' => ∃ peer', Live N p begun calls n' peer' c ∧
      peer'.listener.client.transport.outboundMessages = [] :=
  Leads.iterate (I := fun n peer => Live N p begun calls n peer c)
    (G := fun peer => peer.listener.client.transport.outboundMessages = [])
    (fun peer => peer.listener.client.transport.sendsLeft)
    (fun _ _ ok some => ok.send_one laws some) ok

theorem arrives (laws : N.Lawful) (ok : Live N p begun calls n peer c)
    (sent : peer.listener.client.transport.outboundMessages = []) :
    Leads (Network.step N) (Event.Own p) n fun n' => ∃ peer' c', Live N p begun calls n' peer' c' ∧
      peer'.listener = peer.listener ∧ c'.arrived = encodeFrames (N.requests calls) := by
  have all : peer.up = encodeFrames (N.requests calls) := by
    rw [← ok.calls]
    exact ok.linked.up_all ok.still_on sent
  have begins : c.arrived <+: peer.up := by
    rw [all, ← ok.calls]
    exact ok.linked.asked c ok.connection
  obtain ⟨rest, split⟩ := begins
  have next : nextBytes peer.up c.arrived peer.up.length = rest := by
    rw [nextBytes, ← split, List.drop_left]
    exact List.take_of_length_le (by simp)
  have stepped : n.step N (.up p peer.up.length) = n.serve N (.arrive p rest) := by
    simp only [Network.step, ok.found, ok.connection, next]
  have arrived : n.server.step N.library.toThrift (.arrive p rest) =
      n.server.onConnection p (·.arrive rest) := Server.step_running ok.running _
  have coherent := ok.coherent.step laws (.up p peer.up.length)
  rw [stepped] at coherent
  have connection : (n.server.step N.library.toThrift (.arrive p rest)).connections p =
      some (c.arrive rest) := by
    rw [arrived]
    exact Server.onConnection_self ok.connection
  have live := ok.serve coherent (by rw [arrived]; exact ok.running)
    (by rw [arrived]; exact ok.known) connection ok.server (by rw [arrived]; exact ok.answers)
  rw [← stepped] at live
  refine .next (e := .up p peer.up.length) rfl (.here ⟨_, _, live, rfl, ?_⟩)
  rw [← all, ← split]
  rfl

theorem read_one (laws : N.Lawful) (ok : Live N p begun calls n peer c) (fits : N.Sends calls)
    (replies : N.Answers (Server.replies.map .call)) (busy : ¬ c.Waiting) :
    Leads (Network.step N) (Event.Own p) n fun n' => ∃ peer' c', Live N p begun calls n' peer' c' ∧
      peer'.listener = peer.listener ∧ c'.arrived = c.arrived ∧ c'.link.work < c.link.work := by
  have kept := ok.coherent.server
  have returns : ∀ e : Server.Event, e.On p → n.server.Returns N.library.toThrift e := by
    intro e own
    refine kept.returns laws ok.running fits (fun c h => ?_) own
    rw [← ok.calls]
    exact ok.linked.asked c h
  obtain ⟨e, own, nears, still⟩ :=
    kept.goes_on ok.running ok.connection ok.server ok.known returns busy
  obtain ⟨c', connection, smooth⟩ :=
    Server.Flows.step (T := N.library.toThrift) ⟨c, ok.connection, ok.server⟩ ok.running own
  obtain ⟨l, link, arrived, less⟩ := nears.link
  obtain rfl : c'.link = l := by
    obtain ⟨d, hd, same⟩ := Server.links_eq_some.mp link
    rwa [Option.some.inj (connection.symm.trans hd)]
  have answers : N.Answers (messagesTo p (n.server.step N.library.toThrift e).log) := by
    intro call mem
    rcases kept.told_own ok.running ⟨c, ok.connection, ok.server⟩ own (returns e own) mem
      with old | new
    · exact ok.answers call old
    · exact replies call (List.mem_map_of_mem new)
  have live := ok.step_server laws own still (nears.clients ▸ ok.known) connection smooth answers
  exact .next (e := .server e) own (.here ⟨_, c', live, rfl, arrived, less⟩)

theorem reads (laws : N.Lawful) (ok : Live N p begun calls n peer c) (fits : N.Sends calls)
    (replies : N.Answers (Server.replies.map .call)) :
    Leads (Network.step N) (Event.Own p) n fun n' => ∃ peer' c', Live N p begun calls n' peer' c' ∧
      peer'.listener = peer.listener ∧ c'.arrived = c.arrived ∧ c'.Waiting := by
  refine (Leads.iterate (I := fun n (x : Peer × Connection) => Live N p begun calls n x.1 x.2 ∧
      x.1.listener = peer.listener ∧ x.2.arrived = c.arrived) (G := fun x => x.2.Waiting)
    (fun x => x.2.link.work) (fun n x kept busy => ?_) (a := (peer, c)) ⟨ok, rfl, rfl⟩).mono
      fun n' reached => ?_
  · obtain ⟨live, listener, arrived⟩ := kept
    refine (live.read_one laws fits replies busy).mono fun n' next => ?_
    obtain ⟨peer', c', live', listener', arrived', less⟩ := next
    exact ⟨(peer', c'), ⟨live', listener'.trans listener, arrived'.trans arrived⟩, less⟩
  · obtain ⟨⟨peer', c'⟩, ⟨live, listener, arrived⟩, waiting⟩ := reached
    exact ⟨peer', c', live, listener, arrived, waiting⟩

theorem reply_one (laws : N.Lawful) (ok : Live N p begun calls n peer c) (waiting : c.Waiting)
    (some : c.transport.outboundMessages ≠ []) :
    Leads (Network.step N) (Event.Own p) n fun n' => ∃ peer' c', Live N p begun calls n' peer' c' ∧
      peer'.listener = peer.listener ∧ c'.link = c.link ∧
      c'.transport.sendsLeft < c.transport.sendsLeft := by
  obtain ⟨i, msg, r, found, succeeds⟩ := ok.server.front some
  obtain ⟨bytes, ready, queue⟩ := Connection.ready_written found succeeds
  have finished : n.server.step N.library.toThrift (.finish p i (.ok ())) =
      n.server.onConnection p (·.finish i (.ok ())) := Server.step_running ok.running _
  have connection : (n.server.step N.library.toThrift (.finish p i (.ok ()))).connections p =
      .some (c.finish i (.ok ())) := by
    rw [finished]
    exact Server.onConnection_self ok.connection
  have sent := ok.step_server laws (e := .finish p i (.ok ())) rfl
    (by rw [finished]; exact ok.running) (by rw [finished]; exact ok.known) connection
    (Connection.smooth_finish ok.server i) (by rw [finished]; exact ok.answers)
  have link := waiting.finish ok.server i
  have valid := sent.coherent.server.parsed.valid sent.running
  have written := Server.step_written (T := N.library.toThrift) sent.running sent.connection
    sent.server ready
  obtain ⟨-, smooth, less⟩ := sent.server.written ready
  have handled := sent.step_server laws (e := .run p i) rfl (by rw [written]; exact sent.running)
    (by rw [written]; exact sent.known)
    (by rw [written]; exact Server.onConnection_self sent.connection) smooth
    (by rw [written]; exact sent.answers)
  have same := (waiting.of_link link).written (valid.sound.connections p _ sent.connection)
    sent.server ready
  refine .next (e := .server (.finish p i (.ok ()))) rfl
    (.next (e := .server (.run p i)) rfl (.here ⟨_, _, handled, rfl, same.trans link, ?_⟩))
  rw [← queue, ← less]
  exact Nat.lt_succ_self _

theorem answered (laws : N.Lawful) (ok : Live N p begun calls n peer c) (waiting : c.Waiting) :
    Leads (Network.step N) (Event.Own p) n fun n' => ∃ peer' c', Live N p begun calls n' peer' c' ∧
      peer'.listener = peer.listener ∧ c'.link = c.link ∧ c'.transport.outboundMessages = [] := by
  refine (Leads.iterate (I := fun n (x : Peer × Connection) => Live N p begun calls n x.1 x.2 ∧
      x.1.listener = peer.listener ∧ x.2.link = c.link)
    (G := fun x => x.2.transport.outboundMessages = []) (fun x => x.2.transport.sendsLeft)
    (fun n x kept some => ?_) (a := (peer, c)) ⟨ok, rfl, rfl⟩).mono fun n' reached => ?_
  · obtain ⟨live, listener, link⟩ := kept
    refine (live.reply_one laws (waiting.of_link link) some).mono fun n' next => ?_
    obtain ⟨peer', c', live', listener', link', less⟩ := next
    exact ⟨(peer', c'), ⟨live', listener'.trans listener, link'.trans link⟩, less⟩
  · obtain ⟨⟨peer', c'⟩, ⟨live, listener, link⟩, empty⟩ := reached
    exact ⟨peer', c', live, listener, link, empty⟩

theorem land (laws : N.Lawful) (ok : Live N p begun calls n peer c)
    {r : Option (Completion Arrived)}
    (single : peer.listener.client.transport.others = [⟨.asyncReceive, r⟩]) :
    Leads (Network.step N) (Event.Own p) n fun n' => ∃ peer', Live N p begun calls n' peer' c ∧
      peer'.listener.client.transport.outboundMessages =
        peer.listener.client.transport.outboundMessages ∧
      peer'.delivered = peer.delivered ∧
      peer'.listener.client.transport.others = [⟨.asyncReceive, none⟩] := by
  cases r with
  | none => exact .here ⟨peer, ok, rfl, rfl, single⟩
  | some result =>
    have there := Transport.mem_of_others single
    cases result with
    | error ec => exact absurd rfl (ok.client.succeeds _ there ec)
    | ok bytes =>
      obtain ⟨i, ready⟩ := exists_ready there
      obtain ⟨fault, transport, on⟩ :=
        Listener.step_run_ok (T := N.library) ok.listening ready
      have taken : (peer.listener.client.transport.take i).others = [] := by
        rcases Transport.others_take single ready with ⟨-, none_left⟩ | ⟨⟨msg, write⟩, -⟩
        · exact none_left
        · cases write
      have smooth : (peer.listener.step N.library (.run i)).client.transport.Smooth := by
        rw [transport]
        exact ((ok.client.take ready rfl).start .asyncReceive rfl).congr rfl rfl
      have handled := ok.step_client laws (e := .run i) rfl fault (on begun ok.on) smooth
      refine .next (e := .client p (.run i)) rfl (.here ⟨_, handled, ?_, rfl, ?_⟩)
      · change (peer.listener.step N.library (.run i)).client.transport.outboundMessages = _
        rw [transport]
        rfl
      · change (peer.listener.step N.library (.run i)).client.transport.others = _
        rw [transport]
        change ((peer.listener.client.transport.take i).socket.start .asyncReceive).ops.filter _ = _
        have isOpen : (peer.listener.client.transport.take i).socket.isOpen = true :=
          ok.client.opened
        rw [Transport.others] at taken
        simp only [Socket.start, isOpen, if_true, Proactor.start, List.filter_append, taken]
        rfl

theorem down_eq (ok : Live N p begun calls n peer c) : peer.down = content c.transport.handed :=
  ok.linked.down c ok.connection ok.server.opened

theorem brought (laws : N.Lawful) (ok : Live N p begun calls n peer c) {i : Nat}
    (found : peer.listener.client.transport.socket.ops[i]? = some ⟨.asyncReceive, none⟩)
    (k : Nat) : ∃ peer', Live N p begun calls (n.step N (.down p i k)) peer' c ∧
      peer'.listener = peer.listener.step N.library
        (.finish i (.ok (nextBytes peer.down peer.delivered k))) ∧
      peer'.delivered = peer.delivered ++ nextBytes peer.down peer.delivered k := by
  have received : peer.receive N i k =
      { peer.step N (.finish i (.ok (nextBytes peer.down peer.delivered k))) with
        delivered := peer.delivered ++ nextBytes peer.down peer.delivered k } := by
    have live : ¬ (peer.listener.client.fault.isSome ∨ ¬ peer.listener.On peer.start) := by
      simp [ok.listening, ok.still_on]
    simp only [Peer.receive, found, if_neg live]
  obtain ⟨listening, on, smooth, -⟩ :=
    ok.after_finish i (nextBytes peer.down peer.delivered k)
  refine ⟨peer.receive N i k, ok.onPeer (ok.coherent.step laws (.down p i k)) ?_ ?_ ?_ ?_ ?_,
    ?_, ?_⟩
  all_goals rw [received]
  · rfl
  · rfl
  · exact listening
  · exact on
  · exact smooth
  · rfl

theorem receive_one (laws : N.Lawful) (ok : Live N p begun calls n peer c)
    (answered : c.transport.outboundMessages = [])
    (receiving : peer.listener.client.transport.others = [⟨.asyncReceive, none⟩])
    (more : peer.delivered ≠ peer.down) :
    Leads (Network.step N) (Event.Own p) n fun n' => ∃ peer', Live N p begun calls n' peer' c ∧
      peer'.listener.client.transport.outboundMessages =
        peer.listener.client.transport.outboundMessages ∧
      peer'.listener.client.transport.others = [⟨.asyncReceive, none⟩] ∧
      peer'.down.length - peer'.delivered.length < peer.down.length - peer.delivered.length := by
  have begins : peer.delivered <+: peer.down := by
    rw [ok.linked.down_all ok.coherent.server ok.connection ok.server.opened answered]
    exact ok.linked.delivered
  have behind : peer.delivered.length < peer.down.length := by
    refine lt_of_le_of_ne begins.length_le fun same => more ?_
    exact begins.eq_of_length same
  let bytes := nextBytes peer.down peer.delivered Transport.bufferSize
  have some : 0 < bytes.length := by
    simp only [bytes, nextBytes, Transport.bufferSize, List.length_take, List.length_drop]
    omega
  obtain ⟨i, found⟩ := List.mem_iff_getElem?.mp (Transport.mem_of_others receiving)
  obtain ⟨peer₁, live₁, listener, delivered⟩ := ok.brought laws found Transport.bufferSize
  obtain ⟨-, -, -, finished⟩ := ok.after_finish i bytes
  have queue : peer₁.listener.client.transport.outboundMessages =
      peer.listener.client.transport.outboundMessages := by
    rw [listener, finished]
    rfl
  obtain ⟨r, landing⟩ : ∃ r, peer₁.listener.client.transport.others = [⟨.asyncReceive, r⟩] := by
    rw [listener, finished]
    rcases Transport.others_finish receiving i (.ok (peer.listener.client.arrive bytes))
      with ⟨-, done⟩ | ⟨-, same⟩
    · exact ⟨_, done⟩
    · exact ⟨_, same⟩
  refine .next (e := .down p i Transport.bufferSize) ⟨rfl, Nat.le_refl _⟩
    ((live₁.land laws landing).mono fun n' landed => ?_)
  obtain ⟨peer', live, queue', delivered', receiving'⟩ := landed
  refine ⟨peer', live, queue'.trans queue, receiving', ?_⟩
  have length : peer₁.delivered.length = peer.delivered.length + bytes.length := by
    rw [delivered, List.length_append]
  rw [live.down_eq, ← ok.down_eq, delivered', length]
  omega

theorem receives (laws : N.Lawful) (ok : Live N p begun calls n peer c) (fits : N.Sends calls)
    (answered : c.transport.outboundMessages = []) :
    Leads (Network.step N) (Event.Own p) n fun n' => ∃ peer', Live N p begun calls n' peer' c ∧
      peer'.listener.client.transport.outboundMessages =
        peer.listener.client.transport.outboundMessages ∧
      peer'.listener.client.transport.others = [⟨.asyncReceive, none⟩] ∧
      peer'.delivered = peer'.down := by
  have hearing := ok.linked.hearing ok.still_on (ok.still_sends fits) ok.answers
  obtain ⟨r, received, heard, single, -, -⟩ := hearing
  refine (ok.land laws single).bind fun n₁ landed => ?_
  obtain ⟨peer₁, live₁, queue₁, -, receiving₁⟩ := landed
  refine (Leads.iterate (I := fun n peer' => Live N p begun calls n peer' c ∧
      peer'.listener.client.transport.outboundMessages =
        peer.listener.client.transport.outboundMessages ∧
      peer'.listener.client.transport.others = [⟨.asyncReceive, none⟩])
    (G := fun peer' => peer'.delivered = peer'.down)
    (fun peer' => peer'.down.length - peer'.delivered.length) (fun n peer' kept more => ?_)
    ⟨live₁, queue₁, receiving₁⟩).mono fun n' reached => ?_
  · obtain ⟨live, queue, receiving⟩ := kept
    refine (live.receive_one laws answered receiving more).mono fun n' next => ?_
    obtain ⟨peer'', live', queue', receiving', less⟩ := next
    exact ⟨peer'', ⟨live', queue'.trans queue, receiving'⟩, less⟩
  · obtain ⟨peer', ⟨live, queue, receiving⟩, all⟩ := reached
    exact ⟨peer', live, queue, receiving, all⟩

theorem poll_one (laws : N.Lawful) (ok : Live N p begun calls n peer c) (fits : N.Sends calls)
    (receiving : peer.listener.client.transport.others = [⟨.asyncReceive, none⟩])
    (busy : ¬ peer.listener.client.Settled) :
    Leads (Network.step N) (Event.Own p) n fun n' => ∃ peer', Live N p begun calls n' peer' c ∧
      peer'.listener.client.transport.outboundMessages =
        peer.listener.client.transport.outboundMessages ∧
      peer'.listener.client.transport.others = [⟨.asyncReceive, none⟩] ∧
      peer'.delivered = peer.delivered ∧ peer'.listener.work < peer.listener.work := by
  have sends := ok.still_sends fits
  obtain ⟨r, received, heard, single, hears, brought⟩ :=
    ok.linked.hearing ok.still_on sends ok.answers
  obtain rfl : r = none := by
    rw [receiving] at single
    exact (Op.mk.inj (List.cons.inj single).1).2.symm
  have sent : received.map Prod.snd <+:
      Listener.stream (N.messages (messagesTo p n.server.log)) := by
    have all : peer.delivered = received.map Prod.snd :=
      brought.trans (List.append_nil _)
    rw [← ok.linked.stream_eq ok.coherent.server laws sends, ← all]
    exact ok.linked.delivered
  obtain ⟨e, polls, -, listening, -, less⟩ :=
    hears.nears (T := N.library) (laws.wellFormed ok.answers) sent ok.listening ok.on.1 busy
  obtain ⟨socket, queue⟩ := polls.same (T := N.library) ok.listening
  have live := ok.step_client laws (e := e) (by rcases polls with rfl | rfl <;> rfl) listening
    (ok.on.of_same (by rw [socket]) (by rw [socket])) (ok.client.congr socket queue)
  have receiving' : (peer.step N e).listener.client.transport.others =
      [⟨.asyncReceive, none⟩] := by
    rw [← receiving, Transport.others, Transport.others]
    exact congrArg (fun s => s.ops.filter fun o => o.kind.message?.isNone) socket
  refine .next (e := .client p e) ?_ (.here ⟨_, live, queue, receiving', rfl, less⟩)
  rcases polls with rfl | rfl <;> rfl

theorem polls (laws : N.Lawful) (ok : Live N p begun calls n peer c) (fits : N.Sends calls)
    (receiving : peer.listener.client.transport.others = [⟨.asyncReceive, none⟩]) :
    Leads (Network.step N) (Event.Own p) n fun n' => ∃ peer', Live N p begun calls n' peer' c ∧
      peer'.listener.client.transport.outboundMessages =
        peer.listener.client.transport.outboundMessages ∧
      peer'.listener.client.transport.others = [⟨.asyncReceive, none⟩] ∧
      peer'.delivered = peer.delivered ∧ peer'.listener.client.Settled := by
  refine (Leads.iterate (I := fun n peer' => Live N p begun calls n peer' c ∧
      peer'.listener.client.transport.outboundMessages =
        peer.listener.client.transport.outboundMessages ∧
      peer'.listener.client.transport.others = [⟨.asyncReceive, none⟩] ∧
      peer'.delivered = peer.delivered)
    (G := fun peer' => peer'.listener.client.Settled)
    (fun peer' => peer'.listener.work) (fun n peer' kept busy => ?_)
    ⟨ok, rfl, receiving, rfl⟩).mono fun n' reached => ?_
  · obtain ⟨live, queue, receiving, delivered⟩ := kept
    refine (live.poll_one laws fits receiving busy).mono fun n' next => ?_
    obtain ⟨peer'', live', queue', receiving', delivered', less⟩ := next
    exact ⟨peer'', ⟨live', queue'.trans queue, receiving', delivered'.trans delivered⟩, less⟩
  · obtain ⟨peer', ⟨live, queue, receiving, delivered⟩, settled⟩ := reached
    exact ⟨peer', live, queue, receiving, delivered, settled⟩

/-- Both ends and the network go on until nothing is under way between them. -/
theorem rests (laws : N.Lawful) (ok : Live N p begun calls n peer c) (fits : N.Sends calls)
    (replies : N.Answers (Server.replies.map .call)) :
    Leads (Network.step N) (Event.Own p) n fun n' => ∃ peer' c',
      Live N p begun calls n' peer' c' ∧ n'.AtRest peer' c' := by
  refine (ok.sends laws).bind fun n₁ sent => ?_
  obtain ⟨peer₁, live₁, empty⟩ := sent
  refine (live₁.arrives laws empty).bind fun n₂ arrived => ?_
  obtain ⟨peer₂, c₂, live₂, listener₂, all⟩ := arrived
  refine (live₂.reads laws fits replies).bind fun n₃ read => ?_
  obtain ⟨peer₃, c₃, live₃, listener₃, same₃, waiting⟩ := read
  refine (live₃.answered laws waiting).bind fun n₄ written => ?_
  obtain ⟨peer₄, c₄, live₄, listener₄, link₄, silent⟩ := written
  refine (live₄.receives laws fits silent).bind fun n₅ received => ?_
  obtain ⟨peer₅, live₅, queue₅, receiving₅, delivered₅⟩ := received
  refine (live₅.polls laws fits receiving₅).mono fun n₆ polled => ?_
  obtain ⟨peer₆, live₆, queue₆, receiving₆, delivered₆, settled⟩ := polled
  have sent₆ : peer₆.listener.client.transport.outboundMessages = [] := by
    rw [queue₆, queue₅, listener₄, listener₃, listener₂, empty]
  refine ⟨peer₆, c₄, live₆, live₆.running, sent₆, ?_, waiting.of_link link₄, live₆.server.opened,
    silent, ?_, Transport.mem_of_others receiving₆, settled⟩
  · rw [live₆.linked.up_all live₆.still_on sent₆, live₆.calls, ← all,
      ← same₃]
    exact congrArg Link.arrived link₄
  · rw [delivered₆, delivered₅, live₅.down_eq, live₆.down_eq]

end Live

namespace Network

/-- Nothing has failed on the connection of a client, and the server has its session. -/
structure Unbroken (n : Network) (p : Protocol) (peer : Peer) (c : Connection) : Prop where
  running : n.server.fault = none
  known : p ∈ n.server.handler.clients
  opened : c.transport.isOpen = true
  server : ∀ o ∈ c.transport.socket.ops, ∀ ec, o.result ≠ some (.error ec)
  listening : peer.listener.client.fault = none
  on : peer.listener.On peer.start
  client : ∀ o ∈ peer.listener.client.transport.socket.ops, ∀ ec, o.result ≠ some (.error ec)

/-- No request and no message is stuck. Wherever the system has got to, a connection on which
nothing has failed comes to rest by what its two ends and the network do by themselves, and by then
all calls were asked and everything told was heard. -/
theorem comes_to_rest (N : Wire) (laws : N.Lawful) (clients : Protocol → Option Listener)
    (connected : ∀ p l, clients p = some l → l.Connected) (es : List Event) :
    let n := run (step N) (create clients) es
    ∀ p peer c, n.peers p = some peer → n.server.connections p = some c → n.Unbroken p peer c →
      N.Sends peer.calls → N.Answers (messagesTo p n.server.log ++ Server.replies.map .call) →
        ∃ more, (∀ e ∈ more, Event.Own p e) ∧
          let n' := run (step N) n more
          let events := roomEvents N.library.toThrift n'.server.log
          ∃ peer' c', n'.peers p = some peer' ∧ n'.server.connections p = some c' ∧
            n'.AtRest peer' c' ∧ requestsOf p events = peer.calls.map TalkServerIf.request ∧
            ∃ all : List ClientCall,
              collect Room.step (fun room e => room.told p e) Room.empty events =
                all.map OutMessage.call ∧
              peer'.listener.invoked = peer.start.invoked ++ all.map N.method := by
  intro n p peer c found connection unbroken fits answers
  have coherent : n.Coherent N :=
    run_invariant (fun _ e kept => kept.step laws e) (coherent_create connected) es
  have valid := coherent.server.parsed.valid unbroken.running
  have live : Live N p peer.start peer.calls n peer c :=
    { coherent := coherent
      found := found
      connection := connection
      start := rfl
      calls := rfl
      running := unbroken.running
      known := unbroken.known
      server := ⟨unbroken.opened, (valid.sound.connections p c connection).matched, unbroken.server⟩
      listening := unbroken.listening
      on := unbroken.on
      client := ⟨unbroken.on.1, (coherent.peers p peer found).matched unbroken.on, unbroken.client⟩
      answers := fun call mem => answers call (List.mem_append_left _ mem) }
  obtain ⟨more, own, peer', c', live', rest⟩ :=
    live.rests laws fits fun call mem => answers call (List.mem_append_right _ mem)
  have on := live'.still_on
  have sends := live'.still_sends fits
  obtain ⟨all, heard, told, -, invoked, whole⟩ :=
    live'.linked.hears live'.coherent.server laws on sends live'.answers
  obtain rfl := whole c' live'.connection rest
  have asked := live'.linked.rest_asks live'.coherent.server laws on sends live'.connection rest
  have room := live'.coherent.server.room.told p
  rw [live'.calls] at asked
  rw [live'.start] at invoked
  exact ⟨more, own, peer', c', live'.found, live'.connection, rest, asked, heard,
    room.symm.trans told, invoked⟩

theorem answers_replies : binaryWire.Answers (Server.replies.map .call) := by
  intro call mem
  simp only [Server.replies, List.map_cons, List.map_nil, List.mem_cons, OutMessage.call.injEq,
    List.not_mem_nil, or_false] at mem
  rcases mem with rfl | rfl | rfl | rfl | rfl
  · exact ⟨(by decide : SizeFits (bytes "0.0.1")), by decide +kernel⟩
  · exact ⟨(by decide : SizeFits (bytes "username already taken")), by decide +kernel⟩
  · exact ⟨(by decide : IsI64 0), by decide +kernel⟩
  · exact ⟨(by decide : IsI64 123), by decide +kernel⟩
  · exact ⟨trivial, by decide +kernel⟩

def asking : List Event :=
  [.server (.finishAccept 0 (.ok ())), .server (.runAccept 0 7),
    .server (.finishAccept 0 (.ok ())), .server (.runAccept 0 8),
    .call 8 .getVersion, .call 8 (.setUserName [66])]

theorem comes_to_rest_asking :
    let n := run (step binaryWire) (create twoPeers) asking
    ∃ more, (∀ e ∈ more, Event.Own 8 e) ∧
      requestsOf 8 (roomEvents binaryWire.library.toThrift
        (run (step binaryWire) n more).server.log) = [.getVersion, .setUserName [66]] := by
  intro n
  have state : (n.peers 8).any (fun peer => (n.server.connections 8).any fun c => decide (
      n.server.fault = none ∧ 8 ∈ n.server.handler.clients ∧ c.transport.isOpen = true ∧
        c.transport.socket.ops.all (·.result.isNone) = true ∧
        peer.listener.client.fault = none ∧ peer.listener.On peer.start ∧
        peer.listener.client.transport.socket.ops.all (·.result.isNone) = true ∧
        peer.calls = [.getVersion, .setUserName [66]])) = true := by decide +kernel
  have silent : messagesTo 8 n.server.log = [] := by decide +kernel
  obtain ⟨peer, found, rest⟩ := (Option.any_eq_true ..).mp state
  obtain ⟨c, connection, holds⟩ := (Option.any_eq_true ..).mp rest
  obtain ⟨running, known, opened, server, listening, on, client, calls⟩ := of_decide_eq_true holds
  have unbroken : n.Unbroken 8 peer c := by
    refine ⟨running, known, opened, fun o ho ec failed => ?_, listening, on,
      fun o ho ec failed => ?_⟩
    · have unfinished := List.all_eq_true.mp server o ho
      simp [failed] at unfinished
    · have unfinished := List.all_eq_true.mp client o ho
      simp [failed] at unfinished
  have fits : binaryWire.Sends peer.calls := by
    rw [calls]
    simp only [Wire.Sends, List.forall_mem_cons]
    exact ⟨⟨trivial, by decide +kernel⟩, ⟨(by decide : SizeFits [66]), by decide +kernel⟩, by simp⟩
  have answers : binaryWire.Answers (messagesTo 8 n.server.log ++
      Server.replies.map .call) := by
    rw [silent, List.nil_append]
    exact answers_replies
  obtain ⟨more, own, peer', c', -, -, -, asked, -⟩ := comes_to_rest binaryWire binaryWire_lawful
    twoPeers connected_twoPeers asking 8 peer c found connection unbroken fits answers
  refine ⟨more, own, asked.trans ?_⟩
  rw [calls]
  rfl

end Network

end ThriftAsio
