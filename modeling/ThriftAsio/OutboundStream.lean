import ThriftAsio.OutboundQueue

/-! The outbound byte stream while nothing fails: what was handed to `async_write`, followed by
what waits behind the front, is everything that was written. -/

namespace ThriftAsio
open Proactor Asio Machine

namespace Transport

variable {κ β : Type}

@[simp] theorem content_nil : content [] = [] := rfl

@[simp] theorem content_cons (msg : Message) (msgs : List Message) :
    content (msg :: msgs) = msg.bytes ++ content msgs := rfl

@[simp] theorem content_append (msgs more : List Message) :
    content (msgs ++ more) = content msgs ++ content more := by simp [content]

def accepted (t : Transport κ β) : List UInt8 :=
  content t.handed ++ content t.outboundMessages.tail

/-- How many sends it takes to empty the queue if nothing more is written. -/
def sendsLeft (t : Transport κ β) : Nat :=
  match t.outboundMessages with
  | [] => 0
  | [_] => 1
  | _ => 2

theorem accepted_write (t : Transport κ β) (buf : List UInt8) :
    (t.write buf).accepted = t.accepted ++ buf := by
  cases hq : t.outboundMessages with
  | nil => simp [write, accepted, handed, asyncWriteOne, hq]
  | cons front rest => simp [write, accepted, handed, hq]

theorem accepted_onWritten_ok (t : Transport κ β) (bytes : List β) :
    (t.onWritten (.ok bytes)).state.accepted = t.accepted := by
  match hq : t.outboundMessages with
  | [] => simp [onWritten, hq]
  | [_] => simp [onWritten, accepted, handed, hq]
  | _ :: next :: rest =>
    simp [onWritten, accepted, handed, asyncWriteOne, hq]

theorem accepted_start (t : Transport κ β) {op : SocketOp κ} (other : op.message? = none) :
    ({ t with socket := t.socket.start op } : Transport κ β).accepted = t.accepted := by
  simp [accepted, handed, other]

theorem accepted_onReceive_ok (t : Transport κ β) (bytes : List β) :
    (t.onReceive (.ok bytes)).state.accepted = t.accepted := accepted_start t rfl

theorem accepted_open (t : Transport κ β) : t.open'.state.accepted = t.accepted := by
  simp only [open']
  split
  · exact accepted_start t rfl
  · rfl

theorem sendsLeft_onWritten_ok {t : Transport κ β} (hq : t.outboundMessages ≠ [])
    (bytes : List β) : (t.onWritten (.ok bytes)).state.sendsLeft + 1 = t.sendsLeft := by
  match hq' : t.outboundMessages with
  | [] => exact absurd hq' hq
  | [_] => simp [onWritten, sendsLeft, hq']
  | _ :: next :: rest => simp [onWritten, sendsLeft, asyncWriteOne, hq']

theorem sendsLeft_le (t : Transport κ β) : t.sendsLeft ≤ 2 := by
  unfold sendsLeft
  split <;> omega

theorem sendsLeft_eq_zero {t : Transport κ β} : t.sendsLeft = 0 ↔ t.outboundMessages = [] := by
  match hq : t.outboundMessages with
  | [] => simp [sendsLeft, hq]
  | [_] => simp [sendsLeft, hq]
  | _ :: _ :: _ => simp [sendsLeft, hq]

theorem write_busy {t : Transport κ β} {msg : Message}
    (front : t.outboundMessages.head? = some msg) (buf : List UInt8) :
    (t.write buf).inFlight = t.inFlight ∧
      (t.write buf).outboundMessages.head? = some msg := by
  cases hq : t.outboundMessages with
  | nil => simp [hq] at front
  | cons first rest => simpa [write, hq, inFlight] using front

theorem writes_busy {t : Transport κ β} {msg : Message}
    (front : t.outboundMessages.head? = some msg) (bufs : List (List UInt8)) :
    (bufs.foldl write t).inFlight = t.inFlight ∧
      (bufs.foldl write t).outboundMessages.head? = some msg := by
  induction bufs generalizing t with
  | nil => exact ⟨rfl, front⟩
  | cons buf bufs ih =>
    obtain ⟨same, still⟩ := write_busy front buf
    obtain ⟨same', still'⟩ := ih still
    exact ⟨same'.trans same, still'⟩

/-- Only writes are outstanding, and none of them has failed. -/
def OnlyWrites (t : Transport κ β) : Prop :=
  ∀ o ∈ t.socket.ops, o.kind.message?.isSome ∧ ∀ ec, o.result ≠ some (.error ec)

theorem OnlyWrites.start {t : Transport κ β} (h : t.OnlyWrites) (opened : t.isOpen = true)
    (msg : Message) :
    ∀ o ∈ (t.socket.start (.asyncWrite msg)).ops,
      o.kind.message?.isSome ∧ ∀ ec, o.result ≠ some (.error ec) := by
  rw [isOpen] at opened
  simp only [Socket.start, opened, if_true]
  exact forall_start h ⟨rfl, by simp⟩

theorem OnlyWrites.finish {t : Transport κ β} (h : t.OnlyWrites) (i : Nat) (bytes : List β) :
    (t.finish i (.ok bytes)).OnlyWrites := by
  refine forall_finish h (fun o ho => ⟨ho.1, fun ec => ?_⟩) i
  have failed := ho.2 ec
  cases hr : o.result with
  | none => simp [Op.settle, hr]
  | some r => simpa [Op.settle, hr] using failed

theorem OnlyWrites.write {t : Transport κ β} (h : t.OnlyWrites) (opened : t.isOpen = true)
    (buf : List UInt8) : (t.write buf).isOpen = true ∧ (t.write buf).OnlyWrites := by
  simp only [Transport.write]
  split
  · exact ⟨opened, OnlyWrites.start (t := t) h opened _⟩
  · exact ⟨opened, h⟩

theorem OnlyWrites.onWritten_ok {t : Transport κ β} (h : t.OnlyWrites) (opened : t.isOpen = true)
    (bytes : List β) : (t.onWritten (.ok bytes)).state.isOpen = true ∧
      (t.onWritten (.ok bytes)).state.OnlyWrites := by
  simp only [onWritten]
  split
  · exact ⟨opened, h⟩
  · split
    · exact ⟨opened, h⟩
    · exact ⟨opened, OnlyWrites.start (t := t) h opened _⟩

end Transport

namespace Event

variable {β : Type}

def Flowing : Event β → Prop
  | .write _ | .finish _ (.ok _) | .run _ => True
  | _ => False

def IsWrite : Event β → Prop
  | .write _ => True
  | _ => False

def written : Event β → List UInt8
  | .write buf => buf
  | _ => []

end Event

namespace World

variable {κ β : Type}

def completions (w : World κ β) : List (Event β) → Nat
  | [] => 0
  | e :: es =>
    (match e with
      | .run i => if (ready w.transport.socket.ops i).isSome then 1 else 0
      | _ => 0) + completions (w.step e) es

structure Streaming (w : World κ β) : Prop where
  live : w.Live
  opened : w.transport.isOpen = true
  writes : w.transport.OnlyWrites

theorem streaming_create : (create true : World κ β).Streaming :=
  ⟨live_create true, rfl, by intro o ho; cases ho⟩

theorem Streaming.written {w : World κ β} (s : w.Streaming) {i : Nat} {msg : Message}
    {bytes : List β} (h : ready w.transport.socket.ops i = some (.asyncWrite msg, .ok bytes)) :
    (w.step (.run i)).Streaming ∧
      (w.step (.run i)).transport.accepted = w.transport.accepted ∧
      1 + (w.step (.run i)).transport.sendsLeft = w.transport.sendsLeft := by
  obtain ⟨⟨running, matched⟩, opened, writes⟩ := s
  obtain ⟨front, hf⟩ := matched.take_write h
  have nonempty : (w.transport.take i).outboundMessages ≠ [] := by
    intro empty
    rw [show w.transport.outboundMessages = [] from empty] at front
    cases front
  have stepped : w.step (.run i) = w.handled ((w.transport.take i).onWritten (.ok bytes)) := by
    simp [World.step, running, h, Transport.handle]
  have rest : (w.transport.take i).OnlyWrites := forall_eraseIdx writes i
  obtain ⟨open', only⟩ := rest.onWritten_ok opened bytes
  obtain ⟨m, f⟩ := Transport.onWritten_ok_matched hf nonempty bytes
  have left := Transport.sendsLeft_onWritten_ok nonempty bytes
  have same : (w.transport.take i).sendsLeft = w.transport.sendsLeft := rfl
  rw [stepped]
  refine ⟨⟨⟨f, m⟩, open', only⟩, Transport.accepted_onWritten_ok (w.transport.take i) bytes, ?_⟩
  simp only [handled, returned]
  omega

theorem Streaming.step {w : World κ β} (s : w.Streaming) {e : Event β} (flows : e.Flowing) :
    (w.step e).Streaming ∧
      (w.step e).transport.accepted = w.transport.accepted ++ e.written ∧
      (¬ e.IsWrite → w.completions [e] + (w.step e).transport.sendsLeft =
        w.transport.sendsLeft) := by
  have ⟨⟨running, matched⟩, opened, writes⟩ := s
  cases e with
  | write buf =>
    have stepped : w.step (.write buf) = { w with transport := w.transport.write buf } := by
      simp [World.step, running]
    obtain ⟨open', only⟩ := writes.write opened buf
    rw [stepped]
    exact ⟨⟨⟨running, matched.write buf⟩, open', only⟩, Transport.accepted_write _ _,
      fun no => absurd trivial no⟩
  | finish i r =>
    cases r with
    | error ec => exact flows.elim
    | ok bytes =>
      have stepped : w.step (.finish i (.ok bytes)) =
          { w with transport := w.transport.finish i (.ok bytes) } := by
        simp [World.step, running]
      rw [stepped]
      refine ⟨⟨⟨running, by simpa [Transport.Matched] using matched⟩, opened,
        writes.finish i bytes⟩, (List.append_nil _).symm,
        fun _ => by simp [completions, Transport.sendsLeft]⟩
  | run i =>
    cases h : ready w.transport.socket.ops i with
    | none =>
      have stepped : w.step (.run i) = w := by simp [World.step, h]
      rw [stepped]
      exact ⟨s, by simp [Event.written], fun _ => by simp [completions, h]⟩
    | some found =>
      obtain ⟨op, r⟩ := found
      have known := writes _ (ready_mem h)
      cases op with
      | asyncReceive => cases known.1
      | own op => cases known.1
      | asyncWrite msg =>
        cases r with
        | error ec => exact absurd rfl (known.2 ec)
        | ok bytes =>
          obtain ⟨streaming, accepted, left⟩ := s.written h
          refine ⟨streaming, accepted.trans (List.append_nil _).symm, fun _ => ?_⟩
          simp only [completions, h, Option.isSome_some, if_true]
          omega
  | close | connect | open' => exact flows.elim

theorem Streaming.runs {w : World κ β} (s : w.Streaming) {es : List (Event β)}
    (flows : ∀ e ∈ es, e.Flowing) :
    (run World.step w es).Streaming ∧
      (run World.step w es).transport.accepted = w.transport.accepted ++
        (es.map Event.written).flatten := by
  induction es generalizing w with
  | nil => exact ⟨s, by simp⟩
  | cons e es ih =>
    obtain ⟨next, wrote, -⟩ := s.step (flows e (by simp))
    obtain ⟨last, rest⟩ := ih next fun e' he => flows e' (by simp [he])
    refine ⟨last, ?_⟩
    rw [run_cons, rest, wrote]
    simp

theorem Streaming.drain {w : World κ β} (s : w.Streaming) {es : List (Event β)}
    (flows : ∀ e ∈ es, e.Flowing ∧ ¬ e.IsWrite) :
    w.completions es + (run World.step w es).transport.sendsLeft = w.transport.sendsLeft := by
  induction es generalizing w with
  | nil => simp [completions]
  | cons e es ih =>
    obtain ⟨next, -, one⟩ := s.step (flows e (by simp)).1
    have rest := ih next fun e' he => flows e' (by simp [he])
    have first := one (flows e (by simp)).2
    have split : w.completions (e :: es) = w.completions [e] + (w.step e).completions es := by
      simp only [completions, Nat.add_zero]
    rw [split, run_cons]
    omega

/-- Over any interleaving of writes and successful completions nothing is lost, doubled or
reordered: the buffers handed to async_write and those waiting behind the front are what was
written; one write is in flight exactly while the queue is not empty, no later write touches it,
and with no later write at most two completions empty the queue. -/
theorem stream_preserved (es : List (Event β)) (flows : ∀ e ∈ es, e.Flowing) :
    let w : World κ β := run step (create true) es
    content w.transport.handed ++ content w.transport.outboundMessages.tail =
        (es.map Event.written).flatten ∧
      w.transport.inFlight.length = (if w.transport.outboundMessages = [] then 0 else 1) ∧
      (∀ msg ∈ w.transport.inFlight, ∀ bufs : List (List UInt8),
        (bufs.foldl Transport.write w.transport).inFlight = [msg] ∧
        (bufs.foldl Transport.write w.transport).outboundMessages.head? = some msg) ∧
      ∃ n ≤ 2, ∀ more : List (Event β), (∀ e ∈ more, e.Flowing ∧ ¬ e.IsWrite) →
        w.completions more ≤ n ∧
        (w.completions more = n ↔ (run step w more).transport.outboundMessages = []) := by
  intro w
  have start : (create true : World κ β).Streaming := streaming_create
  have streaming : w.Streaming := (start.runs flows).1
  have all : w.transport.accepted = (es.map Event.written).flatten := (start.runs flows).2
  clear_value w
  have matched : w.transport.inFlight = w.transport.outboundMessages.head?.toList :=
    streaming.live.2
  refine ⟨all, ?_, ?_, w.transport.sendsLeft, w.transport.sendsLeft_le, ?_⟩
  · rw [matched]
    cases w.transport.outboundMessages <;> simp
  · intro msg hm bufs
    have front : w.transport.outboundMessages.head? = some msg := by
      rw [matched] at hm
      simpa using hm
    obtain ⟨same, still⟩ := Transport.writes_busy front bufs
    rw [same, matched, front]
    exact ⟨rfl, still⟩
  · intro more hmore
    have drained := streaming.drain hmore
    rw [← Transport.sendsLeft_eq_zero]
    omega

theorem stream_preserved_three_writes :
    let es : List (Event UInt8) :=
      [.write [1], .write [], .write [2, 3], .finish 0 (.ok []), .run 0]
    let w : World Empty UInt8 := run step (create true) es
    (∀ e ∈ es, e.Flowing) ∧ w.transport.handed = [⟨1, [1]⟩, ⟨4, [2, 3]⟩] ∧
      content w.transport.handed ++ content w.transport.outboundMessages.tail = [1, 2, 3] := by
  have flows : ∀ e ∈ ([.write [1], .write [], .write [2, 3], .finish 0 (.ok []), .run 0] :
      List (Event UInt8)), e.Flowing := by simp [Event.Flowing]
  exact ⟨flows, rfl, (stream_preserved _ flows).1⟩

end World

end ThriftAsio
