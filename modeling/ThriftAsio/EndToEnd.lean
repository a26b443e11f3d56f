import Mathlib.Data.List.Infix
import ThriftAsio.Connected
import ThriftAsio.Network
import ThriftAsio.ServerInput
import ThriftAsio.ServerOutput
import ThriftAsio.WireFormat

/-! The whole system is a room. What the members ask for are the calls that were made on the
clients, in their order and none twice, and the methods that are invoked on a client are what this
member is told; they are all of them once nothing is under way any more. -/

namespace ThriftAsio
open Proactor Asio Machine

theorem begins_nextBytes {sent received stream : Bytes} (known : received <+: stream)
    (given : sent <+: stream) (n : Nat) : received ++ nextBytes sent received n <+: stream := by
  by_cases behind : received.length ≤ sent.length
  · obtain ⟨ahead, rfl⟩ := List.prefix_of_prefix_length_le known given behind
    refine List.IsPrefix.trans ?_ given
    rw [nextBytes, List.drop_left]
    exact (List.prefix_append_right_inj _).mpr (List.take_prefix _ _)
  · have nothing : nextBytes sent received n = [] := by
      rw [nextBytes, List.drop_eq_nil_of_le (Nat.le_of_not_le behind), List.take_nil]
    rwa [nothing, List.append_nil]

namespace Wire

variable (N : Wire)

def payload (call : ClientCall) : Bytes := N.writer.talkClientClient (N.method call)

def requests (calls : List TalkServerIf) : List Bytes := calls.map N.writer.talkServerClient

def messages (sent : List OutMessage) : Listener.Messages :=
  sent.filterMap fun
    | .call call => some (N.payload call, N.method call)
    | .unknownMethod _ _ _ => none

/-- The library reads what it has written, at both ends, and the server's messages are written by
the client objects of its sessions. -/
structure Lawful : Prop where
  readsBack : N.library.ReadsBack N.writer
  frame : ∀ call, N.library.frame (.call call) = OutputProtocol.flush (N.payload call)

variable {N}

theorem flush_eq {payload : Bytes} (some : payload ≠ []) :
    OutputProtocol.flush payload = encodeFrame payload := if_neg some

theorem Lawful.flush_request (laws : N.Lawful) (method : TalkServerIf) :
    OutputProtocol.flush (N.writer.talkServerClient method) =
      encodeFrame (N.writer.talkServerClient method) :=
  flush_eq (talkServerClient_ne_nil laws.readsBack.toReadsBack method)

theorem Lawful.flatMap_frame (laws : N.Lawful) {sent : List OutMessage}
    (calls : ∀ m ∈ sent, ∃ call, m = .call call) :
    sent.flatMap N.library.frame = Listener.stream (N.messages sent) := by
  induction sent with
  | nil => rfl
  | cons m sent ih =>
    obtain ⟨call, rfl⟩ := calls m List.mem_cons_self
    rw [List.flatMap_cons, ih fun m' hm => calls m' (List.mem_cons_of_mem _ hm), laws.frame,
      Wire.payload, flush_eq (talkClientClient_ne_nil laws.readsBack.toReadsBack _)]
    rfl

theorem messages_append (sent more : List OutMessage) :
    N.messages (sent ++ more) = N.messages sent ++ N.messages more := List.filterMap_append

end Wire

def Room.Event.request? (p : Protocol) : Room.Event → Option Request
  | .asks q r => if q = p then some r else none
  | _ => none

def requestsOf (p : Protocol) (events : List Room.Event) : List Request :=
  events.filterMap (Room.Event.request? p)

theorem requestsOf_roomEvents (T : Thrift) (p : Protocol) (log : List Call) :
    requestsOf p (roomEvents T log) =
      (processed p log).filterMap fun payload => (T.request payload).toOption := by
  rw [requestsOf, roomEvents, processed, List.filterMap_filterMap, List.filterMap_filterMap]
  refine List.filterMap_congr fun call _ => ?_
  cases call with
  | process q payload current =>
    by_cases same : q = p
    · cases decoded : T.request payload <;>
        simp [Call.roomEvent, Call.payload?, decoded, Room.Event.request?, same, Except.toOption]
    · cases decoded : T.request payload <;>
        simp [Call.roomEvent, Call.payload?, decoded, Room.Event.request?, same]
  | _ => rfl

theorem Room.told_calls {p : Protocol} {events : List Room.Event}
    (known : ∀ r ∈ requestsOf p events, ∀ fname seqid, r ≠ .unknownMethod fname seqid)
    (room : Room) :
    ∀ m ∈ collect Room.step (fun room e => room.told p e) room events, ∃ call, m = .call call := by
  induction events generalizing room with
  | nil => exact fun m h => absurd h List.not_mem_nil
  | cons e events ih =>
    intro m mem
    rw [collect, List.mem_append] at mem
    rcases mem with now | later
    · cases e with
      | joins q => cases now
      | leaves q => cases now
      | asks q r =>
        cases r with
        | unknownMethod fname seqid =>
          by_cases same : p = q
          · subst same
            exact absurd rfl (known (.unknownMethod fname seqid)
              (by simp [requestsOf, Room.Event.request?]) fname seqid)
          · simp [Room.told, same] at now
        | setUserName name =>
          simp only [Room.told] at now
          split at now <;> split at now <;> simp at now <;> exact ⟨_, now⟩
        | refused => cases now
        | _ =>
          simp only [Room.told, List.mem_ite_nil_right, List.mem_singleton] at now
          exact ⟨_, now.2⟩
    · refine ih (fun r mem => known r ?_) _ m later
      rw [requestsOf, List.filterMap_cons]
      split
      · exact mem
      · exact List.mem_cons_of_mem _ mem

structure Server.Kept (T : Thrift) (s : Server) : Prop where
  parsed : s.Parsed T
  writes : ∀ p, s.Writes T p
  room : s.chains.InRoom T

theorem Server.kept_create (T : Thrift) : Server.create.Kept T :=
  ⟨parsed_create, fun _ => writes_create, inRoom_create⟩

theorem Server.Kept.step {T : Thrift} {s : Server} (kept : s.Kept T) {e : Server.Event}
    (inside : ∀ p frame, e ≠ .write p frame) : (s.step T e).Kept T :=
  ⟨kept.parsed.step e, fun p => (kept.writes p).step (inside p), inRoom_step kept.parsed.valid kept.room e⟩

/-- Calls whose arguments can be written, in frames of a size that can be given. -/
def Wire.Sends (N : Wire) (calls : List TalkServerIf) : Prop :=
  ∀ m ∈ calls, m.Fits ∧ (N.writer.talkServerClient m).length < 2 ^ 32

def Wire.Answers (N : Wire) (sent : List OutMessage) : Prop :=
  ∀ call, .call call ∈ sent → (N.method call).Fits ∧ (N.payload call).length < 2 ^ 32

section Asked

variable {N : Wire} {s : Server} {p : Protocol} {calls : List TalkServerIf}

theorem Server.Kept.processed (kept : s.Kept N.library.toThrift) (fits : N.Sends calls)
    (asked : ∀ c, s.connections p = some c → c.arrived <+: encodeFrames (N.requests calls)) :
    processed p s.log <+: N.requests calls := by
  cases h : s.connections p with
  | none =>
    rw [kept.parsed.fresh p h]
    exact List.nil_prefix
  | some c =>
    have begins := (kept.parsed.taken p c h).trans (asked c h)
    rw [← List.append_nil (encodeFrames (ThriftAsio.processed p s.log))] at begins
    refine payloads_prefix (kept.parsed.small p) (fun f hf => ?_) begins
    obtain ⟨m, hm, rfl⟩ := List.mem_map.mp hf
    exact (fits m hm).2

theorem Wire.Lawful.requests_decoded (laws : N.Lawful) (fits : N.Sends calls) :
    (N.requests calls).filterMap (fun payload => (N.library.request payload).toOption) =
      calls.map TalkServerIf.request := by
  rw [Wire.requests, List.filterMap_map, List.filterMap_eq_map_iff_forall_eq_some.mpr]
  intro m hm
  rw [Function.comp_apply, request_talkServerClient laws.readsBack.toReadsBack (fits m hm).1]
  rfl

theorem Server.Kept.asks (kept : s.Kept N.library.toThrift) (laws : N.Lawful)
    (fits : N.Sends calls)
    (asked : ∀ c, s.connections p = some c → c.arrived <+: encodeFrames (N.requests calls)) :
    requestsOf p (roomEvents N.library.toThrift s.log) <+: calls.map TalkServerIf.request := by
  rw [requestsOf_roomEvents, ← laws.requests_decoded fits]
  exact (kept.processed fits asked).filterMap _

theorem Server.Kept.only_calls (kept : s.Kept N.library.toThrift) (laws : N.Lawful)
    (fits : N.Sends calls)
    (asked : ∀ c, s.connections p = some c → c.arrived <+: encodeFrames (N.requests calls)) :
    ∀ m ∈ messagesTo p s.log, ∃ call, m = .call call := by
  have told := kept.room.told p
  change messagesTo p s.log = _ at told
  rw [told]
  refine Room.told_calls (fun r hr fname seqid unknown => ?_) _
  obtain ⟨m, -, same⟩ := List.mem_map.mp ((kept.asks laws fits asked).subset hr)
  subst unknown
  cases m <;> cases same

end Asked

/-- How a client and the server's end of its connection stand to each other. -/
structure Linked (N : Wire) (s : Server) (p : Protocol) (peer : Peer) : Prop where
  later : peer.start.client.transport.socket.generation ≤
    peer.listener.client.transport.socket.generation
  down : ∀ c, s.connections p = some c → c.transport.isOpen = true →
    peer.down = content c.transport.handed
  told : peer.down <+: (messagesTo p s.log).flatMap N.library.frame
  delivered : peer.delivered <+: (messagesTo p s.log).flatMap N.library.frame
  asked : ∀ c, s.connections p = some c → c.arrived <+: encodeFrames (N.requests peer.calls)
  given : peer.up <+: encodeFrames (N.requests peer.calls)
  up : peer.listener.On peer.start → peer.up = (content peer.listener.client.transport.handed).drop
    (content peer.start.client.transport.handed).length
  accepted : peer.listener.On peer.start → peer.listener.client.transport.accepted =
    content peer.start.client.transport.handed ++ encodeFrames (N.requests peer.calls)
  matched : peer.listener.On peer.start → peer.listener.client.transport.Matched
  hearing : peer.listener.On peer.start → N.Sends peer.calls → N.Answers (messagesTo p s.log) →
    peer.listener.Hearing (N.messages (messagesTo p s.log)) peer.start.invoked peer.delivered

section Linked

variable {N : Wire} {s : Server} {p : Protocol} {peer : Peer}

theorem Wire.Lawful.wellFormed (laws : N.Lawful) {sent : List OutMessage}
    (fits : N.Answers sent) : Listener.WellFormed N.library (N.messages sent) := by
  intro m hm
  obtain ⟨out, hout, same⟩ := List.mem_filterMap.mp hm
  cases out with
  | unknownMethod fname seqid what => cases same
  | call call =>
    obtain rfl := Option.some.inj same
    obtain ⟨fit, small⟩ := fits call hout
    exact ⟨small, whole_talkClientClient laws.readsBack fit⟩

theorem Wire.requests_append (calls more : List TalkServerIf) :
    N.requests (calls ++ more) = N.requests calls ++ N.requests more := List.map_append

theorem Wire.requests_begins {calls more : List TalkServerIf} (longer : calls <+: more) :
    encodeFrames (N.requests calls) <+: encodeFrames (N.requests more) := by
  obtain ⟨later, rfl⟩ := longer
  rw [requests_append, encodeFrames, encodeFrames, List.map_append, List.flatten_append]
  exact List.prefix_append _ _

theorem Linked.serve (ok : Linked N s p peer) (kept : s.Kept N.library.toThrift)
    {e : Server.Event} (inside : ∀ p frame, e ≠ .write p frame)
    (arrives : (s.connections p).elim [] Connection.arrived ++ Chains.coming e.input p <+:
      encodeFrames (N.requests peer.calls)) :
    Linked N (s.step N.library.toThrift e) p
      (peer.answered ((s.step N.library.toThrift e).connections p)) := by
  have kept' := kept.step inside
  obtain ⟨more, log⟩ := kept.parsed.log_step e
  have messages : messagesTo p (s.step N.library.toThrift e).log =
      messagesTo p s.log ++ messagesTo p more := by
    rw [← log, messagesTo, List.filterMap_append]
    rfl
  have longer : (messagesTo p s.log).flatMap N.library.frame <+:
      (messagesTo p (s.step N.library.toThrift e).log).flatMap N.library.frame := by
    rw [messages, List.flatMap_append]
    exact List.prefix_append _ _
  have hearing : peer.listener.On peer.start → N.Sends peer.calls →
      N.Answers (messagesTo p (s.step N.library.toThrift e).log) →
      peer.listener.Hearing (N.messages (messagesTo p (s.step N.library.toThrift e).log))
        peer.start.invoked peer.delivered := by
    intro on sends answers
    rw [messages] at answers ⊢
    refine (ok.hearing on sends fun call hcall => ?_).mono ?_
    · exact answers call (List.mem_append_left _ hcall)
    · rw [Wire.messages_append]
      exact List.prefix_append _ _
  have asked : ∀ c, (s.step N.library.toThrift e).connections p = some c →
      c.arrived <+: encodeFrames (N.requests peer.calls) :=
    fun c h => (kept.parsed.arrived_step e h).trans arrives
  have open_or : ∀ c, (s.step N.library.toThrift e).connections p = some c →
      c.transport.isOpen = true → content c.transport.handed <+:
        (messagesTo p (s.step N.library.toThrift e).log).flatMap N.library.frame := by
    intro c h opened
    rw [← (kept'.writes p).output c h opened]
    exact List.prefix_append _ _
  cases h : (s.step N.library.toThrift e).connections p with
  | none =>
    exact ⟨ok.later, fun c hc => (by rw [h] at hc; cases hc), ok.told.trans longer,
      ok.delivered.trans longer, asked, ok.given, ok.up, ok.accepted, ok.matched, hearing⟩
  | some c =>
    simp only [Peer.answered]
    by_cases opened : c.transport.isOpen = true
    · rw [if_pos opened]
      refine ⟨ok.later, fun d hd _ => ?_, open_or c h opened, ok.delivered.trans longer, asked,
        ok.given, ok.up, ok.accepted, ok.matched, hearing⟩
      obtain rfl := Option.some.inj (h.symm.trans hd)
      rfl
    · rw [if_neg opened]
      refine ⟨ok.later, fun d hd isOpen => ?_, ok.told.trans longer, ok.delivered.trans longer,
        asked, ok.given, ok.up, ok.accepted, ok.matched, hearing⟩
      obtain rfl := Option.some.inj (h.symm.trans hd)
      exact absurd isOpen opened

theorem Linked.moved (ok : Linked N s p peer) {l : Listener} (calls : List TalkServerIf)
    (delivered : Bytes)
    (later : peer.listener.client.transport.socket.generation ≤
      l.client.transport.socket.generation)
    (longer : peer.calls <+: calls)
    (brought : delivered <+: (messagesTo p s.log).flatMap N.library.frame)
    (accepted : l.On peer.start → l.client.transport.accepted =
      content peer.start.client.transport.handed ++ encodeFrames (N.requests calls))
    (matched : l.On peer.start → l.client.transport.Matched)
    (hearing : l.On peer.start → N.Sends calls → N.Answers (messagesTo p s.log) →
      l.Hearing (N.messages (messagesTo p s.log)) peer.start.invoked delivered) :
    Linked N s p { peer.moved l with calls := calls, delivered := delivered } := by
  have requests := Wire.requests_begins (N := N) longer
  refine ⟨ok.later.trans later, ok.down, ok.told, brought, fun c h => (ok.asked c h).trans requests,
    ?_, fun on => if_pos on, accepted, matched, hearing⟩
  change (if l.On peer.start then _ else peer.up) <+: _
  split
  · rename_i on
    have begins : content l.client.transport.handed <+: l.client.transport.accepted :=
      List.prefix_append _ _
    rw [accepted on] at begins
    have rest := List.IsPrefix.drop begins (content peer.start.client.transport.handed).length
    rwa [List.drop_left] at rest
  · exact ok.given.trans requests

theorem Linked.on_before (ok : Linked N s p peer) {l : Listener}
    (later : peer.listener.client.transport.socket.Later l.client.transport.socket)
    (on : l.On peer.start) : peer.listener.On peer.start ∧
      l.client.transport.socket.generation =
        peer.listener.client.transport.socket.generation := by
  have first := ok.later
  have second := later.generation
  have same := on.2
  refine ⟨⟨later.opened (by omega) on.1, by omega⟩, by omega⟩

theorem Linked.stream_eq (ok : Linked N s p peer) (kept : s.Kept N.library.toThrift)
    (laws : N.Lawful) (sends : N.Sends peer.calls) :
    (messagesTo p s.log).flatMap N.library.frame =
      Listener.stream (N.messages (messagesTo p s.log)) :=
  laws.flatMap_frame (kept.only_calls laws sends ok.asked)

theorem Listener.later_step (T : ClientThrift) (l : Listener) (e : Client.Event) :
    l.client.transport.socket.Later (l.step T e).client.transport.socket := by
  rw [step_transport]
  exact l.client.later_step e

theorem Linked.hearing_step (ok : Linked N s p peer) (kept : s.Kept N.library.toThrift)
    (laws : N.Lawful) (running : peer.listener.client.fault = none) {e : Client.Event}
    (on : (peer.listener.step N.library e).On peer.start) (sends : N.Sends peer.calls)
    (answers : N.Answers (messagesTo p s.log)) :
    (peer.listener.step N.library e).Hearing (N.messages (messagesTo p s.log)) peer.start.invoked
      (peer.delivered ++ (peer.listener.client.lands e).map Prod.snd) := by
  obtain ⟨before, same⟩ := ok.on_before (peer.listener.later_step N.library e) on
  refine (ok.hearing before sends answers).step (laws.wellFormed answers) ?_ running on.1 same
  rw [← ok.stream_eq kept laws sends]
  exact ok.delivered

theorem Linked.accepted_step (ok : Linked N s p peer) (running : peer.listener.client.fault = none)
    {e : Client.Event} (other : ∀ frame, e ≠ .send frame)
    (on : (peer.listener.step N.library e).On peer.start) :
    (peer.listener.step N.library e).client.transport.accepted =
      content peer.start.client.transport.handed ++ encodeFrames (N.requests peer.calls) := by
  obtain ⟨before, same⟩ := ok.on_before (peer.listener.later_step N.library e) on
  rw [← ok.accepted before]
  have opened := on.1
  rw [Listener.step_transport] at opened same ⊢
  exact (Client.moved_step running opened same).2.accepted other

theorem Linked.matched_step (ok : Linked N s p peer) (running : peer.listener.client.fault = none)
    {e : Client.Event} (on : (peer.listener.step N.library e).On peer.start) :
    (peer.listener.step N.library e).client.transport.Matched := by
  obtain ⟨before, same⟩ := ok.on_before (peer.listener.later_step N.library e) on
  have opened := on.1
  rw [Listener.step_transport] at opened same ⊢
  exact (Client.moved_step running opened same).2.matched (ok.matched before)

theorem Linked.client (ok : Linked N s p peer) (kept : s.Kept N.library.toThrift)
    (laws : N.Lawful) (running : peer.listener.client.fault = none) {e : Client.Event}
    (other : ∀ frame, e ≠ .send frame)
    (brought : peer.delivered ++ (peer.listener.client.lands e).map Prod.snd <+:
      (messagesTo p s.log).flatMap N.library.frame) :
    Linked N s p { peer.step N e with
      delivered := peer.delivered ++ (peer.listener.client.lands e).map Prod.snd } :=
  ok.moved _ _ (peer.listener.later_step N.library e).generation List.prefix_rfl brought
    (ok.accepted_step running other) (ok.matched_step running) fun on sends answers =>
      ok.hearing_step kept laws running on sends answers

theorem Linked.call (ok : Linked N s p peer) (kept : s.Kept N.library.toThrift)
    (laws : N.Lawful) (method : TalkServerIf) : Linked N s p (peer.call N method) := by
  unfold Peer.call
  split
  · exact ok
  · rename_i live
    have running : peer.listener.client.fault = none := by simpa using live
    let frame := OutputProtocol.flush (N.writer.talkServerClient method)
    refine ok.moved (peer.calls ++ [method]) peer.delivered
      (peer.listener.later_step N.library (.send frame)).generation (List.prefix_append _ _)
      ok.delivered (fun on => ?_) (ok.matched_step running) fun on sends answers => ?_
    · obtain ⟨before, -⟩ := ok.on_before (peer.listener.later_step N.library (.send frame)) on
      have written : (peer.listener.step N.library (.send frame)).client.transport.accepted =
          peer.listener.client.transport.accepted ++ frame := by
        rw [Listener.step_transport, Client.step_running running]
        exact Transport.accepted_write _ frame
      have one : encodeFrames (N.requests [method]) = frame := by
        rw [encodeFrames, Wire.requests, List.map_singleton, List.map_singleton,
          List.flatten_singleton, ← laws.flush_request]
      rw [written, ok.accepted before, Wire.requests_append, List.append_assoc, ← one,
        encodeFrames, encodeFrames, encodeFrames, List.map_append, List.flatten_append]
    · have earlier : N.Sends peer.calls := fun m hm => sends m (List.mem_append_left _ hm)
      have heard := ok.hearing_step kept laws running on earlier answers
      have nothing : peer.listener.client.lands (.send frame) = [] := rfl
      rwa [nothing, List.map_nil, List.append_nil] at heard

theorem Listener.allows_spec {l : Listener} {e : Client.Event} (allowed : l.allows e = true) :
    (∀ frame, e ≠ .send frame) ∧ l.client.lands e = [] := by
  cases e with
  | send frame => cases allowed
  | finish i r =>
    refine ⟨by simp, ?_⟩
    cases r with
    | error ec => rfl
    | ok bytes =>
      simp only [Listener.allows] at allowed
      simp only [Client.lands]
      split at allowed
      · cases allowed
      · rename_i other
        split
        · rename_i found
          exact absurd found (other none)
        · rfl
  | _ => exact ⟨by simp, rfl⟩

theorem Linked.alone (ok : Linked N s p peer) (kept : s.Kept N.library.toThrift)
    (laws : N.Lawful) {e : Client.Event} (allowed : peer.listener.allows e = true) :
    Linked N s p (peer.step N e) := by
  obtain ⟨other, nothing⟩ := Listener.allows_spec allowed
  by_cases dead : peer.listener.client.fault ≠ none
  · rw [Peer.step, Listener.step_dead _ dead]
    exact ok.moved _ _ (Nat.le_refl _) List.prefix_rfl ok.delivered ok.accepted ok.matched
      ok.hearing
  · have same : peer.delivered ++ (peer.listener.client.lands e).map Prod.snd =
        peer.delivered := by rw [nothing, List.map_nil, List.append_nil]
    have moved := ok.client kept laws (not_not.mp dead) other (by rw [same]; exact ok.delivered)
    rwa [same] at moved

theorem Linked.receive (ok : Linked N s p peer) (kept : s.Kept N.library.toThrift)
    (laws : N.Lawful) (i n : Nat) : Linked N s p (peer.receive N i n) := by
  unfold Peer.receive
  split
  · rename_i found
    split
    · exact ok
    · rename_i live
      have running : peer.listener.client.fault = none := by
        by_contra dead
        exact live (.inl (Option.isSome_iff_ne_none.mpr dead))
      let bytes := nextBytes peer.down peer.delivered n
      have lands : (peer.listener.client.lands (.finish i (.ok bytes))).map Prod.snd = bytes := by
        simp [Client.lands, found, Client.arrive, Function.comp_def]
      have moved := ok.client kept laws running (e := .finish i (.ok bytes)) (by simp)
        (by rw [lands]; exact begins_nextBytes ok.delivered ok.told n)
      rwa [lands] at moved
  · exact ok

end Linked

/-- A client whose connection was just made. -/
structure Listener.Connected (l : Listener) : Prop where
  start : l.AtStart
  ops : l.client.transport.socket.ops = [⟨.asyncReceive, none⟩]
  outbound : l.client.transport.outboundMessages = []

namespace Network

variable {N : Wire} {n : Network}

/-- What every step of the system keeps. -/
structure Coherent (N : Wire) (n : Network) : Prop where
  server : n.server.Kept N.library.toThrift
  peers : ∀ p peer, n.peers p = some peer → Linked N n.server p peer

theorem Coherent.onPeer (ok : n.Coherent N) {p : Protocol} {f : Peer → Peer}
    (linked : ∀ peer, n.peers p = some peer → Linked N n.server p (f peer)) :
    (n.onPeer p f).Coherent N := by
  refine ⟨ok.server, fun q peer h => ?_⟩
  by_cases same : q = p
  · subst same
    obtain ⟨old, hold, rfl⟩ : ∃ old, n.peers q = some old ∧ f old = peer := by
      simpa [Network.onPeer] using h
    exact linked old hold
  · exact ok.peers q peer (by simpa [Network.onPeer, same] using h)

theorem Coherent.serve (ok : n.Coherent N) {e : Server.Event}
    (inside : ∀ p frame, e ≠ .write p frame)
    (arrives : ∀ p peer, n.peers p = some peer →
      (n.server.connections p).elim [] Connection.arrived ++ Chains.coming e.input p <+:
        encodeFrames (N.requests peer.calls)) : (n.serve N e).Coherent N := by
  refine ⟨ok.server.step inside, fun p peer h => ?_⟩
  obtain ⟨old, hold, rfl⟩ := Option.map_eq_some_iff.mp h
  exact (ok.peers p old hold).serve ok.server inside (arrives p old hold)

theorem Coherent.arrived (ok : n.Coherent N) {p : Protocol} {peer : Peer}
    (h : n.peers p = some peer) : (n.server.connections p).elim [] Connection.arrived <+:
      encodeFrames (N.requests peer.calls) := by
  cases hc : n.server.connections p with
  | none => exact List.nil_prefix
  | some c => exact (ok.peers p peer h).asked c hc

theorem Coherent.step (laws : N.Lawful) (ok : n.Coherent N) (e : Event) :
    (n.step N e).Coherent N := by
  cases e with
  | server e =>
    simp only [Network.step]
    split
    · rename_i allowed
      refine ok.serve (fun p frame same => by subst same; cases allowed) fun p peer h => ?_
      have nothing : Chains.coming e.input p = [] := by
        cases e with
        | arrive q bytes =>
          have other : q ≠ p := by
            rintro rfl
            simp [Network.allows, h] at allowed
          exact if_neg other
        | _ => rfl
      rw [nothing, List.append_nil]
      exact ok.arrived h
    · exact ok
  | client p e =>
    refine ok.onPeer fun peer h => ?_
    split
    · exact (ok.peers p peer h).alone ok.server laws ‹_›
    · exact ok.peers p peer h
  | call p method => exact ok.onPeer fun peer h => (ok.peers p peer h).call ok.server laws method
  | up p k =>
    simp only [Network.step]
    split
    · rename_i peer c h hc
      refine ok.serve (by simp) fun q other hq => ?_
      by_cases same : p = q
      · subst same
        obtain rfl := Option.some.inj (h.symm.trans hq)
        rw [Server.Event.input, Chains.coming, if_pos rfl, hc]
        exact begins_nextBytes ((ok.peers p peer h).asked c hc) (ok.peers p peer h).given k
      · rw [Server.Event.input, Chains.coming, if_neg same, List.append_nil]
        exact ok.arrived hq
    · exact ok
  | down p i k => exact ok.onPeer fun peer h => (ok.peers p peer h).receive ok.server laws i k

theorem coherent_create {clients : Protocol → Option Listener}
    (connected : ∀ p l, clients p = some l → l.Connected) : (create clients).Coherent N := by
  refine ⟨Server.kept_create _, fun p peer h => ?_⟩
  obtain ⟨l, hl, rfl⟩ := Option.map_eq_some_iff.mp h
  obtain ⟨start, ops, outbound⟩ := connected p l hl
  refine ⟨Nat.le_refl _, fun c hc => (by cases hc), List.nil_prefix, List.nil_prefix,
    fun c hc => (by cases hc), List.nil_prefix, fun _ => ?_, fun _ => ?_, fun _ => ?_,
    fun _ _ _ => ?_⟩
  · exact (List.drop_length ..).symm
  · simp [Peer.create, Transport.accepted, outbound, Wire.requests, encodeFrames]
  · simp [Peer.create, Transport.Matched, Transport.inFlight, Socket.outstanding, ops, outbound,
      SocketOp.message?]
  · refine ⟨none, [], [], by simp [Peer.create, Transport.others, ops, SocketOp.message?], ?_, rfl⟩
    exact ⟨List.nil_prefix, (List.append_nil _).symm, by simp [Peer.create, Listener.stream,
      encodeFrames, Client.pendingBytes, start.idle, start.incommingBytes, Reading.header],
      start.unread, by simp [Peer.create, start.idle]⟩

end Network

/-- Nothing is under way between the server and a client. -/
structure Network.AtRest (n : Network) (peer : Peer) (c : Connection) : Prop where
  running : n.server.fault = none
  sent : peer.listener.client.transport.outboundMessages = []
  arrived : c.arrived = peer.up
  waiting : c.Waiting
  opened : c.transport.isOpen = true
  answered : c.transport.outboundMessages = []
  delivered : peer.delivered = peer.down
  receiving : ⟨.asyncReceive, none⟩ ∈ peer.listener.client.transport.socket.ops
  settled : peer.listener.client.Settled

theorem Wire.messages_call (N : Wire) (calls : List ClientCall) :
    N.messages (calls.map OutMessage.call) = calls.map fun c => (N.payload c, N.method c) := by
  induction calls with
  | nil => rfl
  | cons c calls ih =>
    rw [List.map_cons, List.map_cons, ← ih]
    rfl

theorem exists_calls {sent : List OutMessage} (calls : ∀ m ∈ sent, ∃ call, m = .call call) :
    ∃ told : List ClientCall, sent = told.map OutMessage.call := by
  induction sent with
  | nil => exact ⟨[], rfl⟩
  | cons m sent ih =>
    obtain ⟨call, rfl⟩ := calls m List.mem_cons_self
    obtain ⟨told, rfl⟩ := ih fun m' hm => calls m' (List.mem_cons_of_mem _ hm)
    exact ⟨call :: told, rfl⟩

section Rest

variable {N : Wire} {n : Network} {p : Protocol} {peer : Peer} {c : Connection}

theorem parse_whole {payloads : List (List UInt8)} (small : ∀ f ∈ payloads, f.length < 2 ^ 32) :
    (sizedFrames.parse (encodeFrames payloads)).1.map (List.drop 4) = payloads := by
  have nothing : ¬ sizedFrames.Complete [] := fun complete => absurd complete.1 (by decide)
  have parsed := parse_encodeFrames small nothing
  rwa [List.append_nil] at parsed

theorem Linked.up_all {s : Server} (ok : Linked N s p peer) (on : peer.listener.On peer.start)
    (sent : peer.listener.client.transport.outboundMessages = []) :
    peer.up = encodeFrames (N.requests peer.calls) := by
  have accepted := ok.accepted on
  rw [Transport.accepted, sent, List.tail_nil, Transport.content_nil, List.append_nil] at accepted
  rw [ok.up on, accepted, List.drop_left]

theorem Linked.down_all {s : Server} (ok : Linked N s p peer) (kept : s.Kept N.library.toThrift)
    (hc : s.connections p = some c) (opened : c.transport.isOpen = true)
    (answered : c.transport.outboundMessages = []) :
    peer.down = (messagesTo p s.log).flatMap N.library.frame := by
  have output := (kept.writes p).output c hc opened
  rw [Transport.accepted, answered, List.tail_nil, Transport.content_nil, List.append_nil] at output
  rw [ok.down c hc opened, output]

theorem Linked.rest_asks (ok : Linked N n.server p peer)
    (kept : n.server.Kept N.library.toThrift) (laws : N.Lawful)
    (on : peer.listener.On peer.start) (sends : N.Sends peer.calls)
    (hc : n.server.connections p = some c) (rest : n.AtRest peer c) :
    requestsOf p (roomEvents N.library.toThrift n.server.log) =
      peer.calls.map TalkServerIf.request := by
  have all := ok.up_all on rest.sent
  obtain ⟨frames, streamed⟩ := kept.parsed.streamed rest.running
  have small : ∀ f ∈ N.requests peer.calls, f.length < 2 ^ 32 := by
    intro f hf
    obtain ⟨m, hm, rfl⟩ := List.mem_map.mp hf
    exact (sends m hm).2
  rw [requestsOf_roomEvents, Server.processed_waiting streamed hc rest.waiting, rest.arrived, all,
    parse_whole small, laws.requests_decoded sends]

theorem Linked.hears (ok : Linked N n.server p peer) (kept : n.server.Kept N.library.toThrift)
    (laws : N.Lawful) (on : peer.listener.On peer.start) (sends : N.Sends peer.calls)
    (answers : N.Answers (messagesTo p n.server.log)) :
    ∃ all heard : List ClientCall, messagesTo p n.server.log = all.map OutMessage.call ∧
      heard <+: all ∧ peer.listener.invoked = peer.start.invoked ++ heard.map N.method ∧
      ∀ c, n.server.connections p = some c → n.AtRest peer c → heard = all := by
  obtain ⟨all, calls⟩ := exists_calls (kept.only_calls laws sends ok.asked)
  obtain ⟨r, received, part, single, hears, brought⟩ := ok.hearing on sends answers
  have first := hears.first
  rw [calls, N.messages_call] at first
  obtain ⟨heard, begins, rfl⟩ := List.prefix_map_iff.mp first
  refine ⟨all, heard, calls, begins, ?_, fun c hc rest => ?_⟩
  · rw [hears.invoked, List.map_map]
    rfl
  · have idle : r = none := by
      have mem : (⟨.asyncReceive, none⟩ : Op (SocketOp ConnectOp) (Completion Arrived)) ∈
          peer.listener.client.transport.others := List.mem_filter.mpr ⟨rest.receiving, rfl⟩
      rw [single, List.mem_singleton] at mem
      exact (Op.mk.inj mem).2.symm
    have nothing : Client.landed none = [] := rfl
    have output := ok.down_all kept hc rest.opened rest.answered
    rw [ok.stream_eq kept laws sends, ← rest.delivered, brought, idle, nothing, List.map_nil,
      List.append_nil] at output
    have wellFormed := laws.wellFormed answers
    have small : ∀ f ∈ (N.messages (messagesTo p n.server.log)).map Prod.fst,
        f.length < 2 ^ 32 := by
      intro f hf
      obtain ⟨m, hm, rfl⟩ := List.mem_map.mp hf
      exact (wellFormed m hm).1
    have parsed := hears.settled wellFormed rest.settled
    rw [output, Listener.stream, parse_whole small, calls, N.messages_call] at parsed
    have length := congrArg List.length parsed
    simp only [List.length_map] at length
    exact begins.eq_of_length length.symm

end Rest

namespace Network

/-- A client of the system: what it asks for and what it hears, in the order of its room. -/
structure Served (N : Wire) (n : Network) (events : List Room.Event) (p : Protocol)
    (peer : Peer) : Prop where
  /-- It asks for what was called on it, in the order of the calls. -/
  asks : requestsOf p events <+: peer.calls.map TalkServerIf.request
  /-- The methods invoked on it are what it is told, in this order; at rest nothing is missing. -/
  hears : ∃ all heard : List ClientCall,
    collect Room.step (fun room e => room.told p e) Room.empty events = all.map OutMessage.call ∧
    heard <+: all ∧ peer.listener.invoked = peer.start.invoked ++ heard.map N.method ∧
    ∀ c, n.server.connections p = some c → n.AtRest peer c →
      heard = all ∧ requestsOf p events = peer.calls.map TalkServerIf.request

/-- The server and its clients make a room, whatever the network does to their streams short of
ending the connection of the client in question, and whatever arrives on other connections. -/
theorem implements_room (N : Wire) (laws : N.Lawful) (clients : Protocol → Option Listener)
    (connected : ∀ p l, clients p = some l → l.Connected) (es : List Event) :
    let n := run (step N) (create clients) es
    ∀ p peer, n.peers p = some peer → peer.listener.On peer.start → N.Sends peer.calls →
      N.Answers (messagesTo p n.server.log) →
        Served N n (roomEvents N.library.toThrift n.server.log) p peer := by
  intro n p peer h on sends answers
  have ok : n.Coherent N :=
    run_invariant (fun _ e kept => kept.step laws e) (coherent_create connected) es
  have linked := ok.peers p peer h
  obtain ⟨all, heard, calls, begins, invoked, whole⟩ :=
    linked.hears ok.server laws on sends answers
  have told : messagesTo p n.server.log = _ := ok.server.room.told p
  refine ⟨ok.server.asks laws sends linked.asked, all, heard, told.symm.trans calls, begins,
    invoked, fun c hc rest => ⟨whole c hc rest, ?_⟩⟩
  exact linked.rest_asks ok.server laws on sends hc rest

def binaryWire : Wire :=
  ⟨BinaryProtocol.clientLibrary, BinaryProtocol.writer, BinaryProtocol.method⟩

theorem binaryWire_lawful : binaryWire.Lawful :=
  ⟨BinaryProtocol.clientLibrary_readsBack, fun _ => rfl⟩

def twoPeers (p : Protocol) : Option Listener :=
  if p = 7 ∨ p = 8 then
    some (run (Listener.step binaryWire.library) (.create Client.home) Client.connecting)
  else none

theorem connected_twoPeers (p : Protocol) (l : Listener) (h : twoPeers p = some l) :
    l.Connected := by
  have same : l = run (Listener.step binaryWire.library) (.create Client.home)
      Client.connecting := by
    simp only [twoPeers, Option.ite_none_right_eq_some] at h
    exact (Option.some.inj h.2).symm
  rw [same]
  exact ⟨⟨rfl, rfl, rfl⟩, rfl, rfl⟩

def postedShip : Ship := ⟨[1], [2], 58, 7, none, some [72, 105], none, none, none, none, none⟩

theorem postedShip_fits : postedShip.Fits :=
  ⟨by decide, by decide, by decide, by decide, by decide, by decide, by decide, by decide,
    by decide, by decide⟩

def posting : List Event :=
  [.server (.finishAccept 0 (.ok ())), .server (.runAccept 0 7),
    .server (.finishAccept 0 (.ok ())), .server (.runAccept 0 8),
    .call 8 (.postShip [35] postedShip), .up 8 9, .server (.finish 8 0 (.ok ())),
    .server (.run 8 0), .up 8 100, .server (.finish 8 0 (.ok ())), .server (.run 8 0),
    .down 7 0 100, .client 7 (.run 0), .client 7 .update, .client 7 .read, .client 7 .read]

theorem implements_room_posting :
    let n := run (step binaryWire) (create twoPeers) posting
    ∃ peer, n.peers 7 = some peer ∧
      peer.listener.invoked = [.onSubscribeShip [] postedShip] ∧
      Served binaryWire n (roomEvents binaryWire.library.toThrift n.server.log) 7 peer := by
  intro n
  have state : (n.peers 7).any (fun peer => decide (peer.listener.On peer.start ∧
      peer.calls = [] ∧ peer.listener.invoked = [.onSubscribeShip [] postedShip])) = true := by
    decide +kernel
  have told : messagesTo 7 n.server.log = [.call (.onSubscribeShip [] postedShip)] := by
    decide +kernel
  obtain ⟨peer, h, holds⟩ := (Option.any_eq_true ..).mp state
  obtain ⟨on, calls, invoked⟩ := of_decide_eq_true holds
  refine ⟨peer, h, invoked, implements_room binaryWire binaryWire_lawful twoPeers
    connected_twoPeers posting 7 peer h on (fun m hm => ?_) fun call hcall => ?_⟩
  · rw [calls] at hm
    cases hm
  · rw [told] at hcall
    obtain rfl := OutMessage.call.inj (List.mem_singleton.mp hcall)
    exact ⟨⟨by decide, postedShip_fits⟩, by decide +kernel⟩

end Network

end ThriftAsio
