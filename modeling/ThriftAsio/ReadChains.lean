import ThriftAsio.OutboundQueue
import ThriftAsio.Server

/-! The server as a set of read chains. Of a connection only its outstanding reads and its bytes
are left; whatever happens to a transport otherwise is not seen. Every step of the server is a
step of the chains, as long as the processor returns. -/

namespace ThriftAsio
open Proactor Asio Machine

/-- What the server has to know of a connection. -/
structure Link where
  reads : Ops ReadOp (Completion UInt8)
  unread : List UInt8
  arrived : List UInt8

namespace Connection

def reads (c : Connection) : Ops ReadOp (Completion UInt8) :=
  select SocketOp.own? c.transport.socket.ops

def link (c : Connection) : Link := ⟨c.reads, c.unread, c.arrived⟩

/-- What is in flight is the front of the queue, and `open()` was never called. -/
structure Sound (c : Connection) : Prop where
  matched : c.transport.Matched
  noReceive : SocketOp.asyncReceive ∉ c.transport.socket.outstanding

end Connection

structure Chains where
  links : Protocol → Option Link
  handler : Handler
  log : List Call

namespace Chains

def setLink (a : Chains) (p : Protocol) (l : Link) : Chains :=
  { a with links := Function.update a.links p (some l) }

/-- A read that was just started is running, or has failed because the socket is closed. -/
def Started (r : Option (Completion UInt8)) : Prop := r = none ∨ ∃ ec, r = some (.error ec)

def serving (a : Chains) (p : Protocol) (payload : List UInt8) (answer : Answer) : List Call :=
  [.beforeProcess p, .process p payload a.handler.clients[p]?] ++
    answer.sent.map (fun m => .sent m.1 m.2) ++ [.processReturned p, .afterProcess]

abbrev Input := Protocol × List UInt8

/-- Either nothing that the chains can see happens, or one of these. -/
inductive Step (T : Thrift) : Option Input → Chains → Chains → Prop
  | stutter (i : Option Input) (a : Chains) : Step T i a a
  | accepted {a : Chains} {p : Protocol} {h : Handler} (fresh : a.links p = none)
      (made : a.handler.onClientConnected p = .ok h) :
      Step T none a
        { a.setLink p ⟨[⟨.frameSize, none⟩], [], []⟩ with
          handler := h
          log := a.log ++ [.connected p a.handler.made] }
  | arrived {a : Chains} {p : Protocol} {l : Link} (link : a.links p = some l)
      (bytes : List UInt8) :
      Step T (some (p, bytes)) a
        (a.setLink p ⟨l.reads, l.unread ++ bytes, l.arrived ++ bytes⟩)
  | completed {a : Chains} {p : Protocol} {l : Link} (link : a.links p = some l) {op : ReadOp}
      (reading : l.reads = [⟨op, none⟩]) (enough : op.size ≤ l.unread.length) :
      Step T none a (a.setLink p
        ⟨[⟨op, some (.ok (l.unread.take op.size))⟩], l.unread.drop op.size, l.arrived⟩)
  | failed {a : Chains} {p : Protocol} {l : Link} (link : a.links p = some l) (ec : ErrorCode) :
      Step T none a (a.setLink p { l with reads := cancel (.error ec) l.reads })
  | sized {a : Chains} {p : Protocol} {l : Link} (link : a.links p = some l) {size : List UInt8}
      (read : l.reads = [⟨.frameSize, some (.ok size)⟩]) {r : Option (Completion UInt8)}
      (next : Started r) :
      Step T none a (a.setLink p { l with reads := [⟨.frameData (bigEndian size), r⟩] })
  | served {a : Chains} {p : Protocol} {l : Link} (link : a.links p = some l) {n : Nat}
      {payload : List UInt8} (read : l.reads = [⟨.frameData n, some (.ok payload)⟩])
      {request : Request} (decoded : T.request payload = .ok request) {answer : Answer}
      (served : a.handler.serve p request = .ok answer) {r : Option (Completion UInt8)}
      (next : Started r) :
      Step T none a
        { a.setLink p { l with reads := [⟨.frameSize, r⟩] } with
          handler := answer.handler
          log := a.log ++ a.serving p payload answer }
  | disconnected {a : Chains} {p : Protocol} {l : Link} (link : a.links p = some l) {op : ReadOp}
      {ec : ErrorCode} (failed : l.reads = [⟨op, some (.error ec)⟩]) {h : Handler}
      (erased : a.handler.onClientDisconnected p = .ok h) :
      Step T none a
        { a.setLink p { l with reads := [] } with
          handler := h
          log := a.log ++ [.disconnected p] }

/-- A connection has one outstanding read if it is a key of `clients_`, and none otherwise. -/
structure Consistent (a : Chains) : Prop where
  handler : a.handler.Wellformed
  known : ∀ p ∈ a.handler.clients, a.links p ≠ none
  chain : ∀ p l, a.links p = some l → l.reads.length = if p ∈ a.handler.clients then 1 else 0

theorem Consistent.reading {a : Chains} (ok : a.Consistent) {p : Protocol} {l : Link}
    (link : a.links p = some l) {o : Op ReadOp (Completion UInt8)} (outstanding : o ∈ l.reads) :
    p ∈ a.handler.clients ∧ l.reads = [o] := by
  have count := ok.chain p l link
  split at count
  · obtain ⟨o', single⟩ := List.length_eq_one_iff.mp count
    rw [single] at outstanding
    rw [single, List.mem_singleton.mp outstanding]
    exact ⟨‹_›, rfl⟩
  · rw [List.length_eq_zero_iff.mp count] at outstanding
    cases outstanding

end Chains

namespace Connection

variable {c : Connection}

theorem Sound.onTransport (f : Transport ReadOp UInt8 → Transport ReadOp UInt8) (ok : c.Sound)
    (matched : c.transport.Matched → (f c.transport).Matched)
    (ops : ∀ op ∈ (f c.transport).socket.outstanding,
      op ∈ c.transport.socket.outstanding ∨ op ≠ .asyncReceive) :
    (c.onTransport f).Sound := by
  refine ⟨matched ok.matched, fun bad => ?_⟩
  rcases ops _ bad with old | other
  · exact ok.noReceive old
  · exact other rfl

theorem reads_start (t : Transport ReadOp UInt8) (op : SocketOp ReadOp) :
    ∃ r, Chains.Started r ∧ select SocketOp.own? (t.socket.start op).ops =
      select SocketOp.own? t.socket.ops ++ (op.own?.map fun m => ⟨m, r⟩).toList := by
  simp only [Socket.start]
  split
  · exact ⟨none, .inl rfl, by rw [start, select_append, select_cons]; simp [select]⟩
  · exact ⟨some (.error .badDescriptor), .inr ⟨_, rfl⟩, by
      rw [startFailed, select_append, select_cons]; simp [select]⟩

theorem link_write (frame : List UInt8) : (c.onTransport (·.write frame)).link = c.link := by
  have same : (c.onTransport (·.write frame)).reads = c.reads := by
    simp only [reads, Connection.onTransport]
    rcases c.transport.write_socket frame with same | ⟨msg, started⟩
    · rw [same]
    · obtain ⟨r, -, ops⟩ := reads_start c.transport (.asyncWrite msg)
      rw [started, ops]
      simp [SocketOp.own?]
  rw [link, same]
  rfl

theorem Sound.write (ok : c.Sound) (frame : List UInt8) :
    (c.onTransport (·.write frame)).Sound := by
  refine ok.onTransport _ (fun matched => matched.write frame) fun op hop => ?_
  rcases c.transport.write_socket frame with same | ⟨msg, started⟩
  · rw [same] at hop
    exact .inl hop
  · rw [started, Socket.outstanding_start] at hop
    rcases List.mem_append.mp hop with old | new
    · exact .inl old
    · rw [List.mem_singleton.mp new]
      exact .inr (by simp)

theorem link_startRead (op : ReadOp) :
    ∃ r, Chains.Started r ∧
      (c.startRead op).link = { c.link with reads := c.reads ++ [⟨op, r⟩] } := by
  obtain ⟨r, started, ops⟩ := reads_start c.transport (.own op)
  refine ⟨r, started, ?_⟩
  have same : (c.startRead op).reads = c.reads ++ [⟨op, r⟩] := by
    simpa [reads, startRead, Connection.onTransport, SocketOp.own?] using ops
  rw [link, same]
  rfl

theorem Sound.startRead (ok : c.Sound) (op : ReadOp) : (c.startRead op).Sound := by
  refine ok.onTransport _ (fun matched => ?_) fun op' hop => ?_
  · have other : [SocketOp.own op].filterMap SocketOp.message? = [] := rfl
    simpa [Transport.Matched, Transport.inFlight, other] using matched
  · rw [Socket.outstanding_start] at hop
    rcases List.mem_append.mp hop with old | new
    · exact .inl old
    · rw [List.mem_singleton.mp new]
      exact .inr (by simp)

theorem Sound.take_ops {i : Nat} {op : SocketOp ReadOp} {r : Completion UInt8}
    (h : ready c.transport.socket.ops i = some (op, r)) :
    ∀ op ∈ (c.transport.take i).socket.outstanding, op ∈ c.transport.socket.outstanding := by
  obtain ⟨before, after, all, rest⟩ := Socket.outstanding_take h
  intro op' hop
  simp only [Transport.take, rest, List.mem_append] at hop
  simp only [all, List.mem_append, List.mem_cons]
  tauto

theorem take_read {i : Nat} {op : ReadOp} {r : Completion UInt8}
    (h : ready c.transport.socket.ops i = some (.own op, r)) (single : c.reads.length ≤ 1) :
    c.reads = [⟨op, some r⟩] ∧ (c.onTransport (·.take i)).reads = [] := by
  obtain ⟨before, after, hops, herase⟩ := ready_split h
  have split : c.reads = select SocketOp.own? before ++
      ⟨op, some r⟩ :: select SocketOp.own? after := by
    rw [reads, hops, select_append, select_cons]
    rfl
  have taken : (c.onTransport (·.take i)).reads =
      select SocketOp.own? before ++ select SocketOp.own? after := by
    rw [reads, ← select_append, ← herase]
    rfl
  rw [split, List.length_append, List.length_cons] at single
  have hb := List.length_eq_zero_iff.mp (show (select SocketOp.own? before).length = 0 by omega)
  have ha := List.length_eq_zero_iff.mp (show (select SocketOp.own? after).length = 0 by omega)
  rw [split, taken, hb, ha]
  exact ⟨rfl, rfl⟩

theorem take_other {i : Nat} {op : SocketOp ReadOp} {r : Completion UInt8}
    (h : ready c.transport.socket.ops i = some (op, r)) (other : op.own? = none) :
    (c.onTransport (·.take i)).reads = c.reads := by
  obtain ⟨before, after, hops, herase⟩ := ready_split h
  have split : c.reads = select SocketOp.own? before ++ select SocketOp.own? after := by
    rw [reads, hops, select_append, select_cons, other]
    rfl
  rw [split, reads, ← select_append, ← herase]
  rfl

theorem Sound.take_read {i : Nat} {op : ReadOp} {r : Completion UInt8} (ok : c.Sound)
    (h : ready c.transport.socket.ops i = some (.own op, r)) :
    (c.onTransport (·.take i)).Sound := by
  refine ok.onTransport _ (fun matched => ?_) fun op' hop => .inl (Sound.take_ops h op' hop)
  rw [Transport.Matched, Transport.inFlight_take h rfl]
  exact matched

theorem finish_other {i : Nat} {o : Op (SocketOp ReadOp) (Completion UInt8)}
    (h : c.transport.socket.ops[i]? = some o) (other : o.kind.own? = none) (r : Completion UInt8) :
    (c.onTransport (·.finish i r)).reads = c.reads := by
  obtain ⟨before, after, hops, hfinish⟩ := finish_split h r
  have finished : (c.onTransport (·.finish i r)).reads =
      select SocketOp.own? (before ++ o.settle r :: after) := by rw [← hfinish]; rfl
  rw [finished, reads, hops]
  simp [select_cons, other]

theorem finish_read {i : Nat} {op : ReadOp} {result : Option (Completion UInt8)}
    (h : c.transport.socket.ops[i]? = some ⟨.own op, result⟩) (single : c.reads.length ≤ 1)
    (r : Completion UInt8) :
    c.reads = [⟨op, result⟩] ∧
      (c.onTransport (·.finish i r)).reads = [⟨op, result.or (some r)⟩] := by
  obtain ⟨before, after, hops, hfinish⟩ := finish_split h r
  have split : c.reads = select SocketOp.own? before ++
      ⟨op, result⟩ :: select SocketOp.own? after := by
    rw [reads, hops, select_append, select_cons]
    rfl
  have finished : (c.onTransport (·.finish i r)).reads = select SocketOp.own? before ++
      ⟨op, result.or (some r)⟩ :: select SocketOp.own? after := by
    have ops : (c.onTransport (·.finish i r)).reads =
        select SocketOp.own? (before ++ Op.settle r ⟨.own op, result⟩ :: after) := by
      rw [← hfinish]; rfl
    rw [ops, select_append, select_cons]
    rfl
  rw [split, List.length_append, List.length_cons] at single
  have hb := List.length_eq_zero_iff.mp (show (select SocketOp.own? before).length = 0 by omega)
  have ha := List.length_eq_zero_iff.mp (show (select SocketOp.own? after).length = 0 by omega)
  rw [split, finished, hb, ha]
  exact ⟨rfl, rfl⟩

theorem Sound.onFinish (ok : c.Sound) (i : Nat) (r : Completion UInt8) :
    (c.onTransport (·.finish i r)).Sound := by
  refine ok.onTransport _ (fun matched => ?_) fun op hop => .inl ?_
  · simpa [Transport.Matched] using matched
  · simpa [Transport.finish] using hop

theorem finish_ok {i : Nat} {op : ReadOp} (h : c.transport.socket.ops[i]? = some ⟨.own op, none⟩)
    (single : c.reads.length ≤ 1) (enough : op.size ≤ c.unread.length) (u : Unit) :
    c.reads = [⟨op, none⟩] ∧ (c.finish i (.ok u)).link =
      ⟨[⟨op, some (.ok (c.unread.take op.size))⟩], c.unread.drop op.size, c.arrived⟩ := by
  have finished : c.finish i (.ok u) =
      { c.onTransport (·.finish i (.ok (c.unread.take op.size))) with
        unread := c.unread.drop op.size } := by
    simp [finish, h, enough, Connection.onTransport]
  obtain ⟨before, after⟩ := finish_read h single (.ok (c.unread.take op.size))
  refine ⟨before, ?_⟩
  rw [finished]
  exact congrArg (fun rs => (⟨rs, c.unread.drop op.size, c.arrived⟩ : Link)) after

theorem finish_cases (single : c.reads.length ≤ 1) (i : Nat) (r : Except ErrorCode Unit) :
    (c.finish i r).link = c.link ∨
      (∃ ec, (c.finish i r).link = { c.link with reads := cancel (.error ec) c.reads }) ∨
      ∃ op, c.reads = [⟨op, none⟩] ∧ op.size ≤ c.unread.length ∧
        (c.finish i r).link =
          ⟨[⟨op, some (.ok (c.unread.take op.size))⟩], c.unread.drop op.size, c.arrived⟩ := by
  cases hi : c.transport.socket.ops[i]? with
  | none =>
    refine .inl ?_
    cases r with
    | error ec => simp [finish, Connection.onTransport, link, reads, Transport.finish,
        Socket.finish, finish_of_none hi]
    | ok u => simp [finish, hi]
  | some o =>
    cases r with
    | error ec =>
      have finished : c.finish i (.error ec) = c.onTransport (·.finish i (.error ec)) := rfl
      rw [finished]
      cases own : o.kind.own? with
      | none =>
        refine .inl ?_
        rw [link, finish_other hi own]
        rfl
      | some op =>
        obtain ⟨kind, result⟩ := o
        obtain rfl : kind = .own op := by cases kind <;> simp_all [SocketOp.own?]
        obtain ⟨before, after⟩ := finish_read hi single (.error ec)
        refine .inr (.inl ⟨ec, ?_⟩)
        rw [link, after, before]
        rfl
    | ok u =>
      obtain ⟨kind, result⟩ := o
      cases result with
      | some result => exact .inl (by cases kind <;> simp [finish, hi])
      | none =>
        cases kind with
        | asyncReceive => exact .inl (by simp [finish, hi])
        | asyncWrite msg =>
          have finished : c.finish i (.ok u) = c.onTransport (·.finish i (.ok [])) := by
            simp [finish, hi]
          refine .inl ?_
          rw [finished, link, finish_other hi rfl]
          rfl
        | own op =>
          by_cases enough : op.size ≤ c.unread.length
          · obtain ⟨before, after⟩ := finish_ok hi single enough u
            exact .inr (.inr ⟨op, before, enough, after⟩)
          · exact .inl (by simp [finish, hi, enough])

theorem Sound.finish (ok : c.Sound) (i : Nat) (r : Except ErrorCode Unit) :
    (c.finish i r).Sound := by
  unfold Connection.finish
  split
  · exact ok.onFinish i _
  · split
    · exact ⟨(ok.onFinish i _).matched, (ok.onFinish i _).noReceive⟩
    · exact ok
  · exact ok.onFinish i _
  · exact ok

theorem Sound.written {i : Nat} {msg : Message} {r : Completion UInt8} (ok : c.Sound)
    (h : ready c.transport.socket.ops i = some (.asyncWrite msg, r)) :
    let o := (c.transport.take i).handle (.asyncWrite msg) r
    o.fault = none ∧ (c.onTransport fun _ => o.state).Sound ∧
      ((c.onTransport fun _ => o.state).link = c.link ∨
        ∃ ec, (c.onTransport fun _ => o.state).link =
          { c.link with reads := cancel (.error ec) c.reads }) := by
  obtain ⟨front, idle⟩ := ok.matched.take_write h
  have outstanding := Sound.take_ops h
  have same := take_other h rfl
  cases r with
  | ok bytes =>
    have waiting : (c.transport.take i).outboundMessages ≠ [] := by
      intro empty
      have none_left : c.transport.outboundMessages = [] := empty
      simp [none_left] at front
    obtain ⟨matched, fault⟩ := Transport.onWritten_ok_matched idle waiting bytes
    refine ⟨fault, ok.onTransport _ (fun _ => matched) fun op hop => ?_, .inl ?_⟩
    · rcases (c.transport.take i).onWritten_ok_socket bytes with h' | ⟨msg', h'⟩
      · simp only [Transport.handle, h'] at hop
        exact .inl (outstanding op hop)
      · simp only [Transport.handle, h', Socket.outstanding_start] at hop
        rcases List.mem_append.mp hop with old | new
        · exact .inl (outstanding op old)
        · rw [List.mem_singleton.mp new]
          exact .inr (by simp)
    · have reads_eq : (c.onTransport fun _ =>
          ((c.transport.take i).onWritten (.ok bytes)).state).reads = c.reads := by
        rw [← same]
        simp only [reads, Connection.onTransport]
        rcases (c.transport.take i).onWritten_ok_socket bytes with h' | ⟨msg', h'⟩
        · rw [h']
        · obtain ⟨r, -, ops⟩ := reads_start (c.transport.take i) (.asyncWrite msg')
          rw [h', ops]
          simp [SocketOp.own?]
      exact congrArg (fun rs => (⟨rs, c.unread, c.arrived⟩ : Link)) reads_eq
  | error ec =>
    refine ⟨rfl, ok.onTransport _ (fun _ => Transport.matched_close idle) fun op hop => .inl ?_, ?_⟩
    · rcases (c.transport.take i).close_socket with h' | h'
      · simp only [Transport.handle, Transport.onWritten, h'] at hop
        exact outstanding op hop
      · simp only [Transport.handle, Transport.onWritten, h', Socket.outstanding_close,
          Socket.outstanding_cancel] at hop
        exact outstanding op hop
    · have reads_eq : (c.onTransport fun _ => (c.transport.take i).close.state).reads = c.reads ∨
          (c.onTransport fun _ => (c.transport.take i).close.state).reads =
            cancel (.error .operationAborted) c.reads := by
        rw [← same]
        simp only [reads, Connection.onTransport]
        rcases (c.transport.take i).close_socket with h' | h'
        · exact .inl (by rw [h'])
        · refine .inr ?_
          simp only [h', Socket.close, Socket.cancel, cancel_cancel, select_cancel]
      rcases reads_eq with h' | h'
      · exact .inl (congrArg (fun rs => (⟨rs, c.unread, c.arrived⟩ : Link)) h')
      · exact .inr ⟨_, congrArg (fun rs => (⟨rs, c.unread, c.arrived⟩ : Link)) h'⟩

end Connection

end ThriftAsio
