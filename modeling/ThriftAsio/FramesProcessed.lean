import ThriftAsio.Registry
import ThriftAsio.ServerFrames

/-! The server processes what its clients send. While their streams are made of frames that can
be decoded, every step keeps the streams' accounts, and the reads of a connection by themselves
get through all the frames that have arrived. -/

namespace ThriftAsio
open Proactor Asio Machine

/-- The outstanding read asks for more than has arrived. -/
def Connection.Waiting (c : Connection) : Prop :=
  ∃ op, c.reads = [⟨op, none⟩] ∧ c.unread.length < op.size

def Connection.Failed (c : Connection) : Prop := ∃ op ec, c.reads = [⟨op, some (.error ec)⟩]

/-- A bound for what the reads of a chain can do until more arrives. -/
def Link.work (l : Link) : Nat :=
  l.unread.length +
    match l.reads with
    | [⟨.frameSize, some (.ok _)⟩] => 3
    | [⟨.frameData _, none⟩] => 2
    | [⟨.frameData _, some (.ok _)⟩] => 1
    | _ => 0

theorem Link.work_started {r : Option (Completion UInt8)} (next : Chains.Started r) (op : ReadOp)
    (unread arrived : List UInt8) : (⟨[⟨op, r⟩], unread, arrived⟩ : Link).work ≤
      unread.length + match op with
        | .frameSize => 0
        | .frameData _ => 2 := by
  rcases next with rfl | ⟨ec, rfl⟩ <;> cases op <;> simp [work]

theorem Connection.exists_read {c : Connection} {o : Op ReadOp (Completion UInt8)}
    (h : o ∈ c.reads) : ∃ i : Nat, c.transport.socket.ops[i]? = some ⟨.own o.kind, o.result⟩ := by
  obtain ⟨⟨kind, result⟩, mem, same⟩ := List.mem_filterMap.mp h
  obtain ⟨i, hi⟩ := List.mem_iff_getElem?.mp mem
  refine ⟨i, hi.trans ?_⟩
  cases kind <;> simp [SocketOp.own?] at same
  rw [← same]

namespace Server

variable {T : Thrift} {frames : Protocol → List (List UInt8)} {s : Server}

/-- What arrives on a connection goes on with the stream of its client's frames. -/
def Sends (frames : Protocol → List (List UInt8)) (s : Server) : Event → Prop
  | .arrive p bytes => ∀ c ∈ s.connections p, c.arrived ++ bytes <+: encodeFrames (frames p)
  | _ => True

instance (frames : Protocol → List (List UInt8)) (s : Server) : DecidablePred (Sends frames s)
  | .arrive p bytes => inferInstanceAs (Decidable
      (∀ c ∈ s.connections p, c.arrived ++ bytes <+: encodeFrames (frames p)))
  | .finishAccept _ _ | .runAccept _ _ | .stopListening | .finish _ _ _ | .run _ _ | .write _ _ =>
    .isTrue trivial

/-- Payloads that fit in a frame and that hold a message. -/
def Sendable (T : Thrift) (payloads : List (List UInt8)) : Prop :=
  ∀ payload ∈ payloads, payload.length < 2 ^ 32 ∧ T.Decodes payload

theorem processed_waiting (ok : s.chains.Streamed frames) {p : Protocol} {c : Connection}
    (h : s.connections p = some c) (waiting : c.Waiting) :
    processed p s.log = (sizedFrames.parse c.arrived).1.map (List.drop 4) := by
  obtain ⟨op, reads, few⟩ := waiting
  have link : s.chains.links p = some c.link := links_eq_some.mpr ⟨c, h, rfl⟩
  have outstanding : (⟨op, none⟩ : Op ReadOp (Completion UInt8)) ∈ c.link.reads := by
    change _ ∈ c.reads
    rw [reads]
    exact List.mem_cons_self
  have chain : encodeFrames (processed p s.log) ++ inHand ⟨op, none⟩ ++ c.unread = c.arrived :=
    ok.chain p _ _ link outstanding (by simp [Unfailed])
  have part : ¬ sizedFrames.Complete (inHand ⟨op, none⟩ ++ c.unread) := by
    rintro ⟨header, whole⟩
    cases op with
    | frameSize => exact absurd header (Nat.not_le.mpr few)
    | frameData n =>
      have fits : n < 2 ^ 32 := (ok.done p _ _ link outstanding).size n rfl
      have size : (toBigEndian 4 n ++ c.unread).take 4 = toBigEndian 4 n :=
        List.take_left' (length_toBigEndian 4 n)
      have length : sizedFrames.frameLength (toBigEndian 4 n ++ c.unread) = 4 + n := by
        change 4 + bigEndian ((toBigEndian 4 n ++ c.unread).take 4) = 4 + n
        rw [size, bigEndian_toBigEndian (by simpa using fits)]
      change sizedFrames.frameLength (toBigEndian 4 n ++ c.unread) ≤ _ at whole
      change c.unread.length < n at few
      rw [length] at whole
      simp only [inHand, List.length_append, length_toBigEndian] at whole
      omega
  have small : ∀ f ∈ processed p s.log, f.length < 2 ^ 32 :=
    fun f hf => ok.small p f ((ok.taken p).subset hf)
  rw [← chain, List.append_assoc, parse_encodeFrames small part]

theorem returns_of_streamed (ok : s.chains.Streamed frames)
    (good : ∀ p, Sendable T (frames p)) (e : Event) : s.Returns T e := by
  intro payload h
  obtain ⟨p, i, c, n, rfl, hc, finished⟩ := payload?_eq_some h
  obtain ⟨link, read⟩ := outstanding_read hc finished
  obtain ⟨-, -, next⟩ := ok.next link read
  exact (good p payload (next.subset (by simp))).2

theorem streamed_create (good : ∀ p, Sendable T (frames p)) :
    create.chains.Streamed frames := by
  refine ⟨fun p payload h => (good p payload h).1, ?_, fun p _ => rfl, fun p => List.nil_prefix,
    ?_, ?_, ?_⟩ <;> intro p l <;> intros <;> contradiction

theorem attributed_create : create.chains.Attributed := by
  refine ⟨fun p client known => ?_, fun before after p payload current split => ?_, rfl⟩
  · simp [chains, create, startAccept, Handler.create] at known
  · simp [chains, create, startAccept] at split

structure Accounted (frames : Protocol → List (List UInt8)) (s : Server) : Prop where
  valid : s.Valid
  streamed : s.chains.Streamed frames
  attributed : s.chains.Attributed

theorem Accounted.step (ok : s.Accounted frames) (good : ∀ p, Sendable T (frames p)) {e : Event}
    (sends : Sends frames s e) : (s.step T e).Accounted frames := by
  have returns := returns_of_streamed ok.streamed good e
  have moved := (step_chains ok.valid.sound ok.valid.consistent returns).2
  refine ⟨ok.valid.step returns, ok.streamed.step (fun p bytes l input link => ?_) moved,
    ok.attributed.step ok.valid.consistent moved⟩
  cases e with
  | arrive q more =>
    obtain ⟨rfl, rfl⟩ := Prod.mk.inj (Option.some.inj input)
    obtain ⟨c, hc, rfl⟩ := links_eq_some.mp link
    exact sends c hc
  | _ => cases input

def Event.On (p : Protocol) : Event → Prop
  | .finish q _ (.ok _) => q = p
  | .run q _ => q = p
  | _ => False

theorem Event.On.sends {p : Protocol} {e : Event} (own : e.On p) : Sends frames s e := by
  cases e with
  | arrive q bytes => cases own
  | _ => trivial

structure Nears (T : Thrift) (s : Server) (p : Protocol) (c : Connection) (e : Event) : Prop where
  own : e.On p
  clients : (s.step T e).handler.clients = s.handler.clients
  link : ∃ l, (s.step T e).chains.links p = some l ∧ l.arrived = c.arrived ∧ l.work < c.link.work

section Nears

variable {p : Protocol} {c : Connection} {i : Nat}

theorem nears_finish (running : s.fault = none) (h : s.connections p = some c) {op : ReadOp}
    (reads : c.reads = [⟨op, none⟩]) (hi : c.transport.socket.ops[i]? = some ⟨.own op, none⟩)
    (enough : op.size ≤ c.unread.length) : Nears T s p c (.finish p i (.ok ())) := by
  have one : c.reads.length ≤ 1 := Nat.le_of_eq (congrArg List.length reads)
  obtain ⟨-, finished⟩ := Connection.finish_ok hi one enough ()
  have chains : (s.step T (.finish p i (.ok ()))).chains =
      s.chains.setLink p (c.finish i (.ok ())).link := by
    rw [step_running running]
    exact chains_onConnection h
  refine ⟨rfl, congrArg (fun a => a.handler.clients) chains, _,
    by rw [chains, finished, Chains.setLink_self], rfl, ?_⟩
  cases op with
  | frameSize =>
    change 4 ≤ c.unread.length at enough
    simp only [Link.work, Connection.link, reads, List.length_drop, ReadOp.size]
    omega
  | frameData n =>
    simp only [Link.work, Connection.link, reads, List.length_drop]
    omega

theorem nears_frameSize (valid : s.Valid) (h : s.connections p = some c) {size : List UInt8}
    (reads : c.reads = [⟨.frameSize, some (.ok size)⟩])
    (finished : ready c.transport.socket.ops i = some (.own .frameSize, .ok size)) :
    Nears T s p c (.run p i) := by
  obtain ⟨-, r, started, chains⟩ :=
    frameSize_handled (T := T) valid.sound valid.consistent h finished
  rw [← step_run valid.sound.running h finished] at chains
  refine ⟨rfl, congrArg (fun a => a.handler.clients) chains, _,
    by rw [chains, Chains.setLink_self], rfl, ?_⟩
  have bound := Link.work_started started (.frameData (bigEndian size)) c.unread c.arrived
  have before : c.link.work = c.unread.length + 3 := by
    simp only [Link.work, Connection.link, reads]
  rw [before]
  exact Nat.lt_of_le_of_lt bound (by simp)

theorem nears_frameData (valid : s.Valid) (h : s.connections p = some c) {n : Nat}
    {payload : List UInt8} (reads : c.reads = [⟨.frameData n, some (.ok payload)⟩])
    (finished : ready c.transport.socket.ops i = some (.own (.frameData n), .ok payload))
    {request : Request} (decoded : T.request payload = .ok request) :
    Nears T s p c (.run p i) := by
  obtain ⟨-, answer, r, served, started, chains⟩ :=
    frameData_handled valid.sound valid.consistent h finished decoded
  rw [← step_run valid.sound.running h finished] at chains
  have clients : (s.step T (.run p i)).handler.clients = answer.handler.clients :=
    congrArg (fun a => a.handler.clients) chains
  refine ⟨rfl, clients.trans (Handler.serve_clients served), _,
    by rw [chains]; exact Chains.setLink_self .., rfl, ?_⟩
  have bound := Link.work_started started .frameSize c.unread c.arrived
  have before : c.link.work = c.unread.length + 1 := by
    simp only [Link.work, Connection.link, reads]
  rw [before]
  exact Nat.lt_of_le_of_lt bound (by simp)

theorem Accounted.next (ok : s.Accounted frames) (good : ∀ p, Sendable T (frames p))
    (h : s.connections p = some c) (known : p ∈ s.handler.clients)
    (busy : ¬ (c.Waiting ∨ c.Failed)) : ∃ e, Nears T s p c e := by
  have link : s.chains.links p = some c.link := links_eq_some.mpr ⟨c, h, rfl⟩
  obtain ⟨⟨op, result⟩, reads⟩ : ∃ o, c.reads = [o] :=
    List.length_eq_one_iff.mp ((ok.valid.consistent.chain p _ link).trans (if_pos known))
  obtain ⟨i, hi⟩ : ∃ i : Nat, c.transport.socket.ops[i]? = some ⟨.own op, result⟩ :=
    Connection.exists_read (by rw [reads]; exact List.mem_cons_self)
  cases result with
  | none =>
    have enough : op.size ≤ c.unread.length := by
      by_contra few
      exact busy (.inl ⟨op, reads, Nat.lt_of_not_le few⟩)
    exact ⟨_, nears_finish ok.valid.sound.running h reads hi enough⟩
  | some r =>
    have finished : ready c.transport.socket.ops i = some (.own op, r) := by simp [ready, hi]
    cases r with
    | error ec => exact absurd (.inr ⟨op, ec, reads⟩) busy
    | ok bytes =>
      cases op with
      | frameSize => exact ⟨_, nears_frameSize ok.valid h reads finished⟩
      | frameData n =>
        obtain ⟨request, decoded⟩ := returns_of_streamed ok.streamed good (.run p i) bytes
          (by simp [Event.payload?, h, finished])
        exact ⟨_, nears_frameData ok.valid h reads finished decoded⟩

end Nears

theorem Accounted.drain (ok : s.Accounted frames) (good : ∀ p, Sendable T (frames p))
    {p : Protocol} {c : Connection} (h : s.connections p = some c) (known : p ∈ s.handler.clients) :
    ∃ es : List Event, (∀ e ∈ es, e.On p) ∧ (run (Server.step T) s es).Accounted frames ∧
      ∃ c', (run (Server.step T) s es).connections p = some c' ∧ c'.arrived = c.arrived ∧
        (c'.Waiting ∨ c'.Failed) := by
  obtain ⟨es, own, ⟨kept, -, c', hc', same⟩, c'', hc'', idle⟩ := exists_run_to (Server.step T)
    (I := fun s => s.Accounted frames ∧ p ∈ s.handler.clients ∧
      ∃ c', s.connections p = some c' ∧ c'.arrived = c.arrived)
    (G := fun s => ∃ c', s.connections p = some c' ∧ (c'.Waiting ∨ c'.Failed))
    (E := fun e => e.On p) (fun s => (s.chains.links p).elim 0 Link.work)
    (fun s kept busy => by
      obtain ⟨ok, known, c', hc', same⟩ := kept
      obtain ⟨e, own, clients, l, hl, arrived, less⟩ :=
        ok.next good hc' known fun idle => busy ⟨c', hc', idle⟩
      obtain ⟨d, hd, rfl⟩ := links_eq_some.mp hl
      refine ⟨e, own, ⟨ok.step good own.sends, clients ▸ known, d, hd, arrived.trans same⟩, ?_⟩
      rw [hl, links_eq_some.mpr ⟨c', hc', rfl⟩]
      exact less)
    ⟨ok, known, c, h, rfl⟩
  obtain rfl := Option.some.inj (hc'.symm.trans hc'')
  exact ⟨es, own, kept, c', hc', same, idle⟩

/-- What the server has made of the frames that the clients send. -/
structure Processed (T : Thrift) (frames : Protocol → List (List UInt8)) (s : Server) : Prop where
  /-- No assertion has failed. -/
  running : s.fault = none
  inOrder : ∀ p, processed p s.log <+: frames p
  complete : ∀ p c, s.connections p = some c → c.Waiting →
    processed p s.log = (sizedFrames.parse c.arrived).1.map (List.drop 4)
  all : ∀ p c, s.connections p = some c → c.Waiting → c.arrived = encodeFrames (frames p) →
    processed p s.log = frames p
  /-- The reads of a client get to all the frames that have arrived, or one of them fails. -/
  goesOn : ∀ p c, s.connections p = some c → p ∈ s.handler.clients →
    ∃ es : List Event, (∀ e ∈ es, e.On p) ∧
      ∃ c', (run (step T) s es).connections p = some c' ∧ (c'.Failed ∨
        processed p (run (step T) s es).log = (sizedFrames.parse c.arrived).1.map (List.drop 4))
  apart : s.log.foldlM Call.nest none = some none
  current : ∀ before after p payload current,
    s.log = before ++ .process p payload current :: after →
      ∃ client, current = some client ∧ .connected p client ∈ before

/-- However the connections are interleaved, the server processes exactly the frames of each,
one at a time and in order, for the session that was made when the connection was accepted. -/
theorem frames_processed (T : Thrift) (frames : Protocol → List (List UInt8))
    (good : ∀ p, Sendable T (frames p)) (es : List Event)
    (sends : Along (step T) (Sends frames) create es) :
    (run (step T) create es).Processed T frames := by
  have ok : (run (step T) create es).Accounted frames :=
    run_invariant_along (I := Accounted frames) (fun _ _ ok sends => ok.step good sends)
      ⟨valid_create, streamed_create good, attributed_create⟩ sends
  refine ⟨ok.valid.sound.running, ok.streamed.taken, fun p c h waiting => ?_,
    fun p c h waiting whole => ?_, fun p c h known => ?_, ok.attributed.apart,
    ok.attributed.current⟩
  · exact processed_waiting ok.streamed h waiting
  · have nothing : ¬ sizedFrames.Complete [] := fun complete => absurd complete.1 (by decide)
    have parsed := parse_encodeFrames (ok.streamed.small p) nothing
    rw [List.append_nil] at parsed
    rw [processed_waiting ok.streamed h waiting, whole, parsed]
  · obtain ⟨es', own, ok', c', hc', same, idle⟩ := ok.drain good h known
    refine ⟨es', own, c', hc', idle.symm.imp_right fun waiting => ?_⟩
    rw [processed_waiting ok'.streamed hc' waiting, same]

def twoClients (p : Protocol) : List (List UInt8) :=
  if p = 7 then [BinaryProtocol.getVersion 0, BinaryProtocol.getVersion 1]
  else [BinaryProtocol.getVersion 2]

def interleaved : List Event :=
  [.finishAccept 0 (.ok ()), .runAccept 0 7, .finishAccept 0 (.ok ()), .runAccept 0 8,
    .arrive 7 ((encodeFrames (twoClients 7)).take 3), .arrive 8 (encodeFrames (twoClients 8)),
    .finish 8 0 (.ok ()), .run 8 0, .arrive 7 ((encodeFrames (twoClients 7)).drop 3),
    .finish 7 0 (.ok ()), .run 7 0, .finish 7 0 (.ok ()), .finish 8 0 (.ok ()), .run 8 0,
    .run 7 0, .finish 7 1 (.ok ()), .run 7 1, .finish 7 1 (.ok ()), .run 7 1]

theorem frames_processed_interleaved :
    (run (step BinaryProtocol.library) create interleaved).Processed
        BinaryProtocol.library twoClients ∧
      processed 7 (run (step BinaryProtocol.library) create interleaved).log = twoClients 7 ∧
      processed 8 (run (step BinaryProtocol.library) create interleaved).log = twoClients 8 := by
  refine ⟨frames_processed BinaryProtocol.library twoClients (fun p => ?_) interleaved
    (by decide +kernel), by decide +kernel, by decide +kernel⟩
  unfold twoClients
  split <;> unfold Sendable <;> decide +kernel

end Server

end ThriftAsio
