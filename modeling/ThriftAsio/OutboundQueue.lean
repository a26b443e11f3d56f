import ThriftAsio.Transport

/-! The outbound queue of one transport. In flight is exactly the front of
`outbound_messages_`: this one equation carries the queue's safety and its stream. It is kept
by everything except a `close()` that clears the queue under a running `async_write`. -/

namespace ThriftAsio
open Proactor Asio Machine

namespace Transport

variable {κ β : Type}

def Matched (t : Transport κ β) : Prop := t.inFlight = t.outboundMessages.head?.toList

@[simp] theorem inFlight_finish (t : Transport κ β) (i : Nat) (r : Completion β) :
    (t.finish i r).inFlight = t.inFlight := by simp [inFlight, finish]

@[simp] theorem inFlight_reopen (t : Transport κ β) : t.reopen.inFlight = t.inFlight := by
  simp [inFlight, reopen]

@[simp] theorem outboundMessages_finish (t : Transport κ β) (i : Nat) (r : Completion β) :
    (t.finish i r).outboundMessages = t.outboundMessages := rfl

@[simp] theorem outboundMessages_reopen (t : Transport κ β) :
    t.reopen.outboundMessages = t.outboundMessages := rfl

@[simp] theorem inFlight_asyncWriteOne (t : Transport κ β) :
    t.asyncWriteOne.inFlight = t.inFlight ++ t.asyncWriteOne.outboundMessages := by
  simp [inFlight, asyncWriteOne, SocketOp.message?]

@[simp] theorem inFlight_close (t : Transport κ β) : t.close.state.inFlight = t.inFlight := by
  simp only [inFlight, close]
  split <;> simp

@[simp] theorem outboundMessages_close (t : Transport κ β) :
    t.close.state.outboundMessages = [] := rfl

@[simp] theorem inFlight_open (t : Transport κ β) : t.open'.state.inFlight = t.inFlight := by
  simp only [inFlight, open']
  split <;> simp [SocketOp.message?]

@[simp] theorem outboundMessages_open (t : Transport κ β) :
    t.open'.state.outboundMessages = t.outboundMessages := by
  simp only [open']
  split <;> rfl

@[simp] theorem inFlight_onReceive_ok (t : Transport κ β) (bytes : List β) :
    (t.onReceive (.ok bytes)).state.inFlight = t.inFlight := by
  simp [inFlight, onReceive, SocketOp.message?]

theorem inFlight_take {t : Transport κ β} {i : Nat} {op : SocketOp κ} {r : Completion β}
    (h : ready t.socket.ops i = some (op, r)) (other : op.message? = none) :
    (t.take i).inFlight = t.inFlight := by
  obtain ⟨before, after, all, rest⟩ := Socket.outstanding_take h
  simp [inFlight, take, all, rest, other]

theorem Matched.take_write {t : Transport κ β} {i : Nat} {msg : Message} {r : Completion β}
    (matched : t.Matched) (h : ready t.socket.ops i = some (.asyncWrite msg, r)) :
    t.outboundMessages.head? = some msg ∧ (t.take i).inFlight = [] := by
  obtain ⟨before, after, all, rest⟩ := Socket.outstanding_take h
  have split : t.inFlight = before.filterMap SocketOp.message? ++
      msg :: after.filterMap SocketOp.message? := by
    simp [inFlight, all, SocketOp.message?]
  have taken : (t.take i).inFlight = before.filterMap SocketOp.message? ++
      after.filterMap SocketOp.message? := by
    simp [inFlight, take, rest]
  rw [Matched, split] at matched
  cases hq : t.outboundMessages with
  | nil => simp [hq] at matched
  | cons front rest =>
    simp only [hq, List.head?_cons, Option.toList_some, List.append_eq_singleton_iff,
      List.cons.injEq, reduceCtorEq, and_false, or_false] at matched
    obtain ⟨hb, rfl, ha⟩ := matched
    exact ⟨rfl, by rw [taken, hb, ha]; rfl⟩

theorem Matched.of_idle {t : Transport κ β} (hf : t.inFlight = [])
    (hq : t.outboundMessages = []) : t.Matched := by rw [Matched, hf, hq]; rfl

theorem Matched.idle {t : Transport κ β} (matched : t.Matched)
    (hq : t.outboundMessages = []) : t.inFlight = [] := by rw [matched, hq]; rfl

theorem matched_asyncWriteOne {t : Transport κ β} (hf : t.inFlight = []) :
    t.asyncWriteOne.Matched := by
  rw [Matched, inFlight_asyncWriteOne, hf]
  rfl

theorem Matched.write {t : Transport κ β} (matched : t.Matched) (buf : List UInt8) :
    (t.write buf).Matched := by
  cases hq : t.outboundMessages with
  | nil =>
    have hw : t.write buf = asyncWriteOne
        { t with outboundMessages := [⟨t.stamps, buf⟩], stamps := t.stamps + 1 } := by
      simp [Transport.write, hq]
    rw [hw]
    exact matched_asyncWriteOne (matched.idle hq)
  | cons front rest =>
    have hw : t.write buf =
        { t with outboundMessages := front :: rest ++ [⟨t.stamps, buf⟩]
                 stamps := t.stamps + 1 } := by
      simp [Transport.write, hq]
    rw [hw]
    simpa [Matched, hq, inFlight] using matched

/-- The success branch pops what was sent and starts on what is waiting. -/
theorem onWritten_ok_matched {t : Transport κ β} (hf : t.inFlight = [])
    (hq : t.outboundMessages ≠ []) (bytes : List β) :
    (t.onWritten (.ok bytes)).state.Matched ∧ (t.onWritten (.ok bytes)).fault = none := by
  cases hq' : t.outboundMessages with
  | nil => exact absurd hq' hq
  | cons front rest =>
    simp only [onWritten, hq', and_true]
    cases rest with
    | nil => exact Matched.of_idle hf rfl
    | cons next rest => exact matched_asyncWriteOne hf

theorem matched_close {t : Transport κ β} (hf : t.inFlight = []) : t.close.state.Matched :=
  Matched.of_idle (by simpa using hf) rfl

end Transport

namespace World

variable {κ β : Type}

/-- Whenever a write's handler runs pop_front(), the front is the message it reports. -/
def PopsWhatWasSent (w : World κ β) (e : Event β) : Prop :=
  ∀ i msg bytes, e = .run i →
    ready w.transport.socket.ops i = some (.asyncWrite msg, .ok bytes) →
    w.transport.outboundMessages.head? = some msg

/-- At most one write is in flight, and its bytes are the front of the queue. -/
def FrontInFlight (w : World κ β) : Prop :=
  w.transport.inFlight.length ≤ 1 ∧
    ∀ msg ∈ w.transport.inFlight, w.transport.outboundMessages.head? = some msg

def QueueSafe (w : World κ β) (e : Event β) : Prop :=
  w.PopsWhatWasSent e ∧ (w.step e).FrontInFlight

/-- The steps that run close(), apart from a failed write whose handler has run by then. -/
def Closes (w : World κ β) (e : Event β) : Prop :=
  e = .close ∨ ∃ i ec, e = .run i ∧
    ready w.transport.socket.ops i = some (.asyncReceive, .error ec)

def ClosesWhenIdle (w : World κ β) (e : Event β) : Prop :=
  w.Closes e → w.transport.inFlight = []

def Live (w : World κ β) : Prop := w.fault = none ∧ w.transport.Matched

theorem Live.frontInFlight {w : World κ β} (live : w.Live) : w.FrontInFlight := by
  rw [FrontInFlight, live.2]
  cases w.transport.outboundMessages <;> simp

theorem live_create (opened : Bool) : (create opened : World κ β).Live := ⟨rfl, rfl⟩

theorem Live.step {w : World κ β} (live : w.Live) (e : Event β) (idle : w.ClosesWhenIdle e) :
    w.PopsWhatWasSent e ∧ (w.step e).Live := by
  obtain ⟨running, matched⟩ := live
  refine ⟨fun i msg bytes _ h => (matched.take_write h).1, ?_⟩
  have alive : w.fault.isSome = false := by simp [running]
  cases e with
  | write buf =>
    exact ⟨by simp [World.step, running],
      by simpa [World.step, alive] using matched.write buf⟩
  | close =>
    have hf := idle (.inl rfl)
    simp only [World.step, alive, Live, returned]
    exact ⟨running, Transport.matched_close hf⟩
  | connect =>
    simp only [World.step, alive, Live]
    exact ⟨running, by simpa [Transport.Matched] using matched⟩
  | open' =>
    simp only [World.step, alive, Live, returned]
    exact ⟨running, by simpa [Transport.Matched] using matched⟩
  | finish i r =>
    simp only [World.step, alive, Live]
    exact ⟨running, by simpa [Transport.Matched] using matched⟩
  | run i =>
    cases h : ready w.transport.socket.ops i with
    | none => simpa [World.step, alive, h, Live] using ⟨running, matched⟩
    | some found =>
      obtain ⟨op, r⟩ := found
      have stepped : w.step (.run i) = w.handled ((w.transport.take i).handle op r) := by
        simp [World.step, alive, h]
      rw [stepped]
      cases op with
      | asyncReceive =>
        have kept := Transport.inFlight_take h rfl
        cases r with
        | error ec =>
          have hf := idle (.inr ⟨i, ec, rfl, h⟩)
          exact ⟨rfl, Transport.matched_close (kept.trans hf)⟩
        | ok bytes =>
          refine ⟨rfl, ?_⟩
          change Transport.Matched (Transport.onReceive _ _).state
          rw [Transport.Matched, Transport.inFlight_onReceive_ok, kept]
          exact matched
      | asyncWrite msg =>
        obtain ⟨front, hf⟩ := matched.take_write h
        cases r with
        | error ec => exact ⟨rfl, Transport.matched_close hf⟩
        | ok bytes =>
          have nonempty : (w.transport.take i).outboundMessages ≠ [] := by
            intro empty
            rw [show w.transport.outboundMessages = [] from empty] at front
            cases front
          obtain ⟨m, f⟩ := Transport.onWritten_ok_matched hf nonempty bytes
          exact ⟨f, m⟩
      | own op =>
        have kept := Transport.inFlight_take h rfl
        exact ⟨rfl, kept.trans matched⟩

theorem Live.close_breaks {w : World κ β} (live : w.Live) (e : Event β)
    (busy : ¬ w.ClosesWhenIdle e) : ¬ (w.step e).FrontInFlight := by
  obtain ⟨running, matched⟩ := live
  simp only [ClosesWhenIdle, Classical.not_imp] at busy
  obtain ⟨closes, hf⟩ := busy
  have alive : w.fault.isSome = false := by simp [running]
  have cleared : (w.step e).transport.inFlight = w.transport.inFlight ∧
      (w.step e).transport.outboundMessages = [] := by
    rcases closes with rfl | ⟨i, ec, rfl, h⟩
    · simp [World.step, alive, returned]
    · simp only [World.step, alive, h]
      exact ⟨(Transport.inFlight_close _).trans (Transport.inFlight_take h rfl), rfl⟩
  obtain ⟨msg, hm⟩ := List.exists_mem_of_ne_nil _ hf
  intro safe
  have front := safe.2 msg (by rw [cleared.1]; exact hm)
  rw [cleared.2] at front
  cases front

/-- The queue is safe along a run exactly when no close() of the run, by the user or by a
receive error, clears the queue while a write is in flight. -/
theorem queueSafe_iff_closesWhenIdle (opened : Bool) (es : List (Event β)) :
    Along step QueueSafe (create opened : World κ β) es ↔
      Along step ClosesWhenIdle (create opened : World κ β) es :=
  along_iff_of_exact
    (fun _ e live idle => ⟨⟨(live.step e idle).1, (live.step e idle).2.frontInFlight⟩,
      (live.step e idle).2⟩)
    (fun _ e live busy safe => live.close_breaks e busy safe.2)
    (live_create opened) es

/-- The peer takes the bytes, close() clears the queue, and the handler that is already queued
pops from an empty list. -/
theorem close_under_write_pops_empty :
    ¬ Along step QueueSafe (create true : World Empty UInt8)
        [.write [1], .finish 0 (.ok []), .close, .run 0] ∧
      (run step (create true : World Empty UInt8)
        [.write [1], .finish 0 (.ok []), .close, .run 0]).fault = some .undefinedBehaviour := by
  refine ⟨fun safe => ?_, rfl⟩
  have front := safe.2.2.2.1.1 0 _ _ rfl rfl
  cases front

end World

end ThriftAsio
