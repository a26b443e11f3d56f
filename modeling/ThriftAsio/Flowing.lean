import ThriftAsio.Connected
import ThriftAsio.ServerInput
import ThriftAsio.ServerOutput

/-! Transports on which nothing fails. Their writes go out one after the other until nothing is
left, and what the reads of a chain do keeps the transports of the server so. -/

namespace ThriftAsio
open Proactor Asio Machine

namespace Transport

variable {κ β : Type} {t t' : Transport κ β}

/-- The socket is open, the front of the queue is in flight, and nothing has failed. -/
structure Smooth (t : Transport κ β) : Prop where
  opened : t.isOpen = true
  matched : t.Matched
  succeeds : ∀ o ∈ t.socket.ops, ∀ ec, o.result ≠ some (.error ec)

theorem Smooth.congr (ok : t.Smooth) (socket : t'.socket = t.socket)
    (outbound : t'.outboundMessages = t.outboundMessages) : t'.Smooth := by
  refine ⟨?_, ?_, ?_⟩
  · rw [isOpen, socket]
    exact ok.opened
  · rw [Matched, inFlight, socket, outbound]
    exact ok.matched
  · rw [socket]
    exact ok.succeeds

theorem succeeds_start (opened : t.isOpen = true)
    (succeeds : ∀ o ∈ t.socket.ops, ∀ ec, o.result ≠ some (.error ec)) (op : SocketOp κ) :
    ∀ o ∈ (t.socket.start op).ops, ∀ ec, o.result ≠ some (.error ec) := by
  rw [isOpen] at opened
  simp only [Socket.start, opened, if_true]
  exact forall_start succeeds (by simp)

theorem Smooth.start (ok : t.Smooth) (op : SocketOp κ) (other : op.message? = none) :
    Smooth { t with socket := t.socket.start op } := by
  refine ⟨ok.opened, ?_, succeeds_start ok.opened ok.succeeds op⟩
  have matched := ok.matched
  simpa [Matched, inFlight, other] using matched

theorem Smooth.write (ok : t.Smooth) (buf : List UInt8) : (t.write buf).Smooth := by
  refine ⟨?_, ok.matched.write buf, ?_⟩
  · rcases t.write_socket buf with same | ⟨msg, started⟩
    · rw [isOpen, same]
      exact ok.opened
    · rw [isOpen, started]
      exact ok.opened
  · rcases t.write_socket buf with same | ⟨msg, started⟩
    · rw [same]
      exact ok.succeeds
    · rw [started]
      exact succeeds_start ok.opened ok.succeeds _

theorem Smooth.finish (ok : t.Smooth) (i : Nat) (bytes : List β) :
    (t.finish i (.ok bytes)).Smooth := by
  refine ⟨ok.opened, by simpa [Matched] using ok.matched, ?_⟩
  refine forall_finish ok.succeeds (fun o ho ec => ?_) i
  have old := ho ec
  cases result : o.result with
  | none => simp [Op.settle, result]
  | some r => simpa [Op.settle, result] using old

theorem Smooth.take (ok : t.Smooth) {i : Nat} {op : SocketOp κ} {r : Completion β}
    (h : ready t.socket.ops i = some (op, r)) (other : op.message? = none) : (t.take i).Smooth := by
  refine ⟨ok.opened, ?_, forall_eraseIdx ok.succeeds i⟩
  rw [Matched, inFlight_take h other]
  exact ok.matched

theorem Smooth.written (ok : t.Smooth) {i : Nat} {msg : Message} {bytes : List β}
    (h : ready t.socket.ops i = some (.asyncWrite msg, .ok bytes)) :
    ((t.take i).onWritten (.ok bytes)).fault = none ∧
      ((t.take i).onWritten (.ok bytes)).state.Smooth ∧
      ((t.take i).onWritten (.ok bytes)).state.sendsLeft + 1 = t.sendsLeft := by
  obtain ⟨idle, waiting⟩ := ok.matched.take_waiting h
  obtain ⟨matched, fault⟩ := onWritten_ok_matched idle waiting bytes
  have opened : (t.take i).isOpen = true := ok.opened
  have succeeds : ∀ o ∈ (t.take i).socket.ops, ∀ ec, o.result ≠ some (.error ec) :=
    forall_eraseIdx ok.succeeds i
  refine ⟨fault, ⟨?_, matched, ?_⟩, sendsLeft_onWritten_ok waiting bytes⟩
  · rcases (t.take i).onWritten_ok_socket bytes with same | ⟨next, started⟩
    · rw [isOpen, same]
      exact opened
    · rw [isOpen, started]
      exact opened
  · rcases (t.take i).onWritten_ok_socket bytes with same | ⟨next, started⟩
    · rw [same]
      exact succeeds
    · rw [started]
      exact succeeds_start opened succeeds _

theorem Smooth.front (ok : t.Smooth) (some : t.outboundMessages ≠ []) :
    ∃ (i : Nat) (msg : Message) (r : Option (Completion β)),
      t.socket.ops[i]? = .some ⟨.asyncWrite msg, r⟩ ∧ ∀ ec, r ≠ .some (.error ec) := by
  obtain ⟨msg, rest, queue⟩ := List.exists_cons_of_ne_nil some
  have mem : msg ∈ t.inFlight := by
    rw [ok.matched, queue]
    exact List.mem_singleton.mpr rfl
  obtain ⟨op, outstanding, sent⟩ := List.mem_filterMap.mp mem
  obtain ⟨⟨kind, r⟩, there, rfl⟩ := List.mem_map.mp outstanding
  obtain ⟨i, found⟩ := List.mem_iff_getElem?.mp there
  refine ⟨i, msg, r, found.trans ?_, ok.succeeds _ there⟩
  cases kind with
  | asyncWrite msg' =>
    obtain rfl := Option.some.inj sent
    rfl
  | asyncReceive => cases sent
  | own op => cases sent

theorem ready_written {i : Nat} {msg : Message} {r : Option (Completion β)}
    (found : t.socket.ops[i]? = some ⟨.asyncWrite msg, r⟩) (succeeds : ∀ ec, r ≠ some (.error ec)) :
    ∃ bytes, ready (t.finish i (.ok [])).socket.ops i = some (.asyncWrite msg, .ok bytes) := by
  have settled : (t.finish i (.ok [])).socket.ops[i]? =
      some (Op.settle (.ok []) ⟨.asyncWrite msg, r⟩) := by
    simp [finish, Socket.finish, Proactor.finish, found]
  cases r with
  | none => exact ⟨[], by simp [ready, settled, Op.settle]⟩
  | some result =>
    cases result with
    | error ec => exact absurd rfl (succeeds ec)
    | ok bytes => exact ⟨bytes, by simp [ready, settled, Op.settle]⟩

end Transport

namespace Connection

variable {c : Connection}

theorem smooth_finish (smooth : c.transport.Smooth) (i : Nat) :
    (c.finish i (.ok ())).transport.Smooth := by
  unfold finish
  split
  · contradiction
  · split
    · exact smooth.finish i _
    · exact smooth
  · exact smooth.finish i _
  · exact smooth

theorem ready_written {i : Nat} {msg : Message} {r : Option (Completion UInt8)}
    (found : c.transport.socket.ops[i]? = some ⟨.asyncWrite msg, r⟩)
    (succeeds : ∀ ec, r ≠ some (.error ec)) : ∃ bytes,
    ready (c.finish i (.ok ())).transport.socket.ops i = some (.asyncWrite msg, .ok bytes) ∧
      (c.finish i (.ok ())).transport.sendsLeft = c.transport.sendsLeft := by
  cases r with
  | none =>
    have finished : c.finish i (.ok ()) = c.onTransport (·.finish i (.ok [])) := by
      simp [finish, found]
    obtain ⟨bytes, done⟩ := Transport.ready_written found succeeds
    rw [finished]
    exact ⟨bytes, done, rfl⟩
  | some result =>
    have finished : c.finish i (.ok ()) = c := by simp [finish, found]
    cases result with
    | error ec => exact absurd rfl (succeeds ec)
    | ok bytes =>
      rw [finished]
      exact ⟨bytes, by simp [ready, found], rfl⟩

theorem no_failed_read (smooth : c.transport.Smooth) (op : ReadOp) (ec : ErrorCode) :
    (⟨op, some (.error ec)⟩ : Op ReadOp (Completion UInt8)) ∉ c.reads := by
  intro mem
  obtain ⟨i, found⟩ := exists_read mem
  exact smooth.succeeds _ (List.mem_of_getElem? found) ec rfl

theorem Waiting.finish (waiting : c.Waiting) (smooth : c.transport.Smooth) (i : Nat) :
    (c.finish i (.ok ())).link = c.link := by
  obtain ⟨op, reads, few⟩ := waiting
  have single : c.reads.length ≤ 1 := Nat.le_of_eq (congrArg List.length reads)
  rcases finish_cases single i (.ok ()) with same | ⟨ec, failed⟩ | ⟨op', reads', enough, -⟩
  · exact same
  · have failed_read := congrArg Link.reads failed
    refine absurd ?_ (no_failed_read (smooth_finish smooth i) op ec)
    change (c.finish i (.ok ())).reads = _ at failed_read
    rw [failed_read, reads]
    exact List.mem_singleton.mpr rfl
  · rw [reads] at reads'
    obtain ⟨⟩ := reads'
    exact absurd enough (Nat.not_le.mpr few)

theorem Waiting.written (waiting : c.Waiting) (sound : c.Sound) (smooth : c.transport.Smooth)
    {i : Nat} {msg : Message} {bytes : List UInt8}
    (finished : ready c.transport.socket.ops i = some (.asyncWrite msg, .ok bytes)) :
    (c.onTransport fun _ => ((c.transport.take i).onWritten (.ok bytes)).state).link = c.link := by
  obtain ⟨op, reads, -⟩ := waiting
  obtain ⟨-, -, same | ⟨ec, closed⟩⟩ := sound.written finished
  · exact same
  · have after : (c.onTransport fun _ =>
        ((c.transport.take i).onWritten (.ok bytes)).state).transport.Smooth :=
      (smooth.written finished).2.1
    refine absurd ?_ (no_failed_read after op ec)
    have failed : (c.onTransport fun _ =>
        ((c.transport.take i).onWritten (.ok bytes)).state).reads = cancel (.error ec) c.reads :=
      congrArg Link.reads closed
    rw [failed, reads]
    exact List.mem_singleton.mpr rfl

theorem Waiting.of_link {c' : Connection} (waiting : c.Waiting) (same : c'.link = c.link) :
    c'.Waiting := by
  obtain ⟨op, reads, few⟩ := waiting
  have unread : c'.unread = c.unread := congrArg Link.unread same
  exact ⟨op, (congrArg Link.reads same).trans reads, by rwa [unread]⟩

end Connection

namespace Server

variable {T : Thrift} {s : Server} {p : Protocol}

def Flows (s : Server) (p : Protocol) : Prop :=
  ∃ c, s.connections p = some c ∧ c.transport.Smooth

theorem Flows.onConnection (ok : s.Flows p) {q : Protocol} {f : Connection → Connection}
    (keeps : ∀ c, s.connections q = some c → c.transport.Smooth → (f c).transport.Smooth) :
    (s.onConnection q f).Flows p := by
  obtain ⟨c, h, smooth⟩ := ok
  by_cases same : q = p
  · subst same
    exact ⟨f c, onConnection_self h, keeps c h smooth⟩
  · exact ⟨c, (onConnection_other same).trans h, smooth⟩

theorem Flows.startRead (ok : s.Flows p) (q : Protocol) (op : ReadOp) :
    (s.onConnection q (·.startRead op)).Flows p :=
  ok.onConnection fun _ _ smooth => smooth.start _ rfl

theorem Flows.sends (ok : s.Flows p) (msgs : List (Protocol × OutMessage)) :
    (msgs.foldl (send T) s).Flows p := by
  induction msgs generalizing s with
  | nil => exact ok
  | cons m msgs ih =>
    refine ih ?_
    have written : (s.write m.1 (T.frame m.2)).Flows p :=
      ok.onConnection fun c _ smooth => smooth.write _
    exact written

theorem Flows.process (ok : s.Flows p) (q : Protocol) (payload : List UInt8) :
    (s.process T q payload).Flows p := by
  simp only [Server.process]
  split
  · exact ok
  · split
    · exact ok
    · rename_i answer processed
      have called : Flows { s with
          log := s.log ++ [.process q payload s.handler.currentClient]
          handler := answer.handler } p := ok
      exact called.sends answer.sent

theorem Flows.onFrameData (ok : s.Flows p) (q : Protocol) (payload : List UInt8) :
    (s.onFrameData T q payload).Flows p := by
  simp only [Server.onFrameData]
  split
  · exact ok
  · rename_i h found
    have before : Flows { s with handler := h, log := s.log ++ [.beforeProcess q] } p := ok
    split
    · exact before.process q payload
    · exact Flows.startRead (before.process q payload) q _

theorem Flows.step (ok : s.Flows p) (running : s.fault = none) {e : Event} (own : e.On p) :
    (s.step T e).Flows p := by
  rw [step_running running]
  cases e with
  | finish q i r =>
    cases r with
    | error ec => cases own
    | ok u => exact ok.onConnection fun c _ smooth => c.smooth_finish smooth i
  | run q i =>
    obtain rfl : q = p := own
    obtain ⟨c, h, smooth⟩ := ok
    simp only [act, h]
    split
    · exact ⟨c, h, smooth⟩
    · rename_i op r finished
      have taken : op.message? = none → (s.onConnection q
          (·.onTransport fun _ => c.transport.take i)).Flows q :=
        fun other => ⟨_, onConnection_self h, smooth.take finished other⟩
      cases r with
      | error ec => exact absurd rfl (smooth.succeeds _ (ready_mem finished) ec)
      | ok bytes =>
        cases op with
        | asyncReceive =>
          refine ⟨_, onConnection_self h, ?_⟩
          exact ((smooth.take finished rfl).start .asyncReceive rfl).congr rfl rfl
        | asyncWrite msg => exact ⟨_, onConnection_self h, (smooth.written finished).2.1⟩
        | own m =>
          cases m with
          | frameSize => exact (taken rfl).startRead q _
          | frameData n => exact (taken rfl).onFrameData q bytes
  | _ => cases own

/-- What the handler calls on the client of the session that asks. -/
def replies : List ClientCall :=
  [.onGetVersion (bytes "0.0.1"), .onSetUserNameFailed (bytes "username already taken"),
    .onSetUserNameSucceeded, .onSubscribeSucceeded 123, .onUnsubscribeSucceeded]

end Server

theorem Room.told_self {room : Room} {p : Protocol} {r : Request} {call : ClientCall}
    (h : .call call ∈ room.told p (.asks p r)) : call ∈ Server.replies := by
  cases r with
  | setUserName name =>
    simp only [Room.told] at h
    split at h <;> split at h <;> simp at h <;> simp [h, Server.replies]
  | _ => simp_all [Room.told, Server.replies]

end ThriftAsio
