import ThriftAsio.Transport

/-! The loop of `read()`, which runs handlers until there are enough bytes. A handler that closes
the transport takes all bytes away, and a receive that is handled later only adds some until the
next one fails on the closed socket. So without anything left to run there are no bytes. -/

namespace ThriftAsio
open Proactor Asio Machine

inductive ReadEnd (κ β : Type) where
  | returned (bytes : List β) (transport : Transport κ β)
  | threw (fault : Fault)

def Event.Opens {β : Type} : Event β → Prop
  | .connect | .open' => True
  | _ => False

namespace World

variable {κ β : Type}

/-- The loop of `read(buf, len)` ends with enough bytes or with an exception of a handler. -/
def readEnd (len : Nat) (w : World κ β) : Option (ReadEnd κ β) :=
  match w.fault with
  | some .undefinedBehaviour => none
  | some fault => some (.threw fault)
  | none => (w.transport.read len).map fun r => .returned r.1 r.2

/-- `run_one()` with what it will run: it returns at once when there is nothing left. -/
def runOne : World κ β × List (Event β) → World κ β × List (Event β)
  | (w, []) => (w, [])
  | (w, e :: es) => (w.step e, es)

def readLoop (len : Nat) (rounds : Nat) (w : World κ β) (es : List (Event β)) :
    Option (ReadEnd κ β) := loop (fun x => readEnd len x.1) runOne rounds (w, es)

def Disconnects (w : World κ β) : Event β → Prop
  | .close => True
  | .run i => ∃ ec, ready w.transport.socket.ops i = some (.asyncReceive, .error ec) ∨
      ∃ msg, ready w.transport.socket.ops i = some (.asyncWrite msg, .error ec)
  | _ => False

def Waits (len : Nat) (w : World κ β) : Prop := w.fault = none ∧ w.transport.availableBytes < len

/-- The socket is closed, and if there are bytes, a receive that has failed will clear them. -/
structure Dry (w : World κ β) : Prop where
  closed : w.transport.isOpen = false
  clears : w.transport.incommingBytes = [] ∨
    ∃ ec, (⟨.asyncReceive, some (.error ec)⟩ : Op (SocketOp κ) (Completion β)) ∈
      w.transport.socket.ops

theorem Dry.close (t : Transport κ β) (calls : List Callback) (fault : Option Fault) :
    Dry ⟨t.close.state, calls, fault⟩ := ⟨Transport.isOpen_close t, .inl rfl⟩

theorem mem_ops_start {s : Socket (SocketOp κ) β} {o : Op (SocketOp κ) (Completion β)}
    (h : o ∈ s.ops) (op : SocketOp κ) : o ∈ (s.start op).ops := by
  simp only [Socket.start]
  split <;> exact List.mem_append_left _ h

theorem Dry.write {w : World κ β} (dry : w.Dry) (buf : List UInt8) :
    Dry { w with transport := w.transport.write buf } := by
  rcases w.transport.write_socket buf with same | ⟨msg, started⟩
  · refine ⟨?_, ?_⟩
    · simpa only [Transport.isOpen, same] using dry.closed
    · simpa only [Transport.write_incommingBytes, same] using dry.clears
  · refine ⟨?_, ?_⟩
    · simpa only [Transport.isOpen, started, Socket.isOpen_start] using dry.closed
    · rw [Transport.write_incommingBytes, started]
      exact dry.clears.imp_right (Exists.imp fun ec h => mem_ops_start h _)

theorem Dry.finish {w : World κ β} (dry : w.Dry) (i : Nat) (r : Completion β) :
    Dry { w with transport := w.transport.finish i r } := by
  refine ⟨dry.closed, dry.clears.imp_right ?_⟩
  rintro ⟨ec, h⟩
  obtain ⟨o, ho, same | same⟩ := exists_finish h i r
  · exact ⟨ec, same ▸ ho⟩
  · have kept : o = ⟨.asyncReceive, some (.error ec)⟩ := same
    exact ⟨ec, kept ▸ ho⟩

theorem mem_take {w : World κ β} {i : Nat} {op : SocketOp κ} {r : Completion β}
    (found : ready w.transport.socket.ops i = some (op, r)) {o : Op (SocketOp κ) (Completion β)}
    (h : o ∈ w.transport.socket.ops) (other : o ≠ ⟨op, some r⟩) :
    o ∈ (w.transport.take i).socket.ops := by
  obtain ⟨before, after, split, rest⟩ := ready_split found
  rw [split] at h
  simp only [Transport.take, Socket.take, rest]
  simpa [other] using h

theorem Dry.run {w : World κ β} (dry : w.Dry) {i : Nat} {op : SocketOp κ} {r : Completion β}
    (found : ready w.transport.socket.ops i = some (op, r)) :
    (w.handled ((w.transport.take i).handle op r)).Dry := by
  have closed : (w.transport.take i).socket.isOpen = false := dry.closed
  have keep : op ≠ .asyncReceive → (w.transport.take i).incommingBytes = [] ∨
      ∃ ec, (⟨.asyncReceive, some (.error ec)⟩ : Op (SocketOp κ) (Completion β)) ∈
        (w.transport.take i).socket.ops := by
    intro other
    refine dry.clears.imp_right (Exists.imp fun ec h => mem_take found h ?_)
    simp [Ne.symm other]
  cases op with
  | own op => exact ⟨closed, keep (by simp)⟩
  | asyncReceive =>
    cases r with
    | error ec => exact Dry.close _ _ _
    | ok bytes =>
      -- the next receive fails at once
      refine ⟨closed, .inr ⟨.badDescriptor, ?_⟩⟩
      change _ ∈ ((w.transport.take i).socket.start .asyncReceive).ops
      simp [Socket.start, closed, startFailed]
  | asyncWrite msg =>
    cases r with
    | error ec => exact Dry.close _ _ _
    | ok bytes =>
      refine ⟨?_, ?_⟩
      · change ((w.transport.take i).onWritten (.ok bytes)).state.socket.isOpen = false
        rcases (w.transport.take i).onWritten_ok_socket bytes with same | ⟨msg', started⟩
        · rw [same, closed]
        · rw [started, Socket.isOpen_start, closed]
      · change ((w.transport.take i).onWritten (.ok bytes)).state.incommingBytes = [] ∨
          ∃ ec, _ ∈ ((w.transport.take i).onWritten (.ok bytes)).state.socket.ops
        rw [Transport.onWritten_ok_incommingBytes]
        refine (keep (by simp)).imp_right (Exists.imp fun ec h => ?_)
        rcases (w.transport.take i).onWritten_ok_socket bytes with same | ⟨msg', started⟩
        · rw [same]
          exact h
        · rw [started]
          exact mem_ops_start h _

theorem Dry.step {w : World κ β} (dry : w.Dry) {e : Event β} (spares : ¬ e.Opens) :
    (w.step e).Dry := by
  unfold World.step
  split
  · exact dry
  · cases e with
    | write buf => exact dry.write buf
    | close => exact Dry.close _ _ _
    | connect => exact absurd trivial spares
    | open' => exact absurd trivial spares
    | finish i r => exact dry.finish i r
    | run i =>
      cases found : ready w.transport.socket.ops i with
      | none =>
        simp only [found]
        exact dry
      | some x =>
        simp only [found]
        exact dry.run found

theorem dry_of_closes {w : World κ β} (running : w.fault = none) {e : Event β}
    (closes : w.Disconnects e) : (w.step e).Dry := by
  have stopped : w.fault.isSome = false := by simp [running]
  cases e with
  | close =>
    simp only [World.step, stopped, Bool.false_eq_true, if_false]
    exact Dry.close _ _ _
  | run i =>
    obtain ⟨ec, found | ⟨msg, found⟩⟩ := closes
    · simp only [World.step, stopped, Bool.false_eq_true, if_false, found]
      exact Dry.close _ _ _
    · simp only [World.step, stopped, Bool.false_eq_true, if_false, found]
      exact Dry.close _ _ _
  | _ => cases closes

theorem fault_step {w : World κ β} (running : w.fault = none) (e : Event β) :
    (w.step e).fault = none ∨ (w.step e).fault = some .undefinedBehaviour := by
  have stopped : w.fault.isSome = false := by simp [running]
  simp only [World.step, stopped, Bool.false_eq_true, if_false]
  cases e with
  | run i =>
    cases found : ready w.transport.socket.ops i with
    | none =>
      simp only [found]
      exact .inl running
    | some x =>
      obtain ⟨op, r⟩ := x
      simp only [found]
      cases op with
      | own op => exact .inl rfl
      | asyncReceive => cases r <;> exact .inl rfl
      | asyncWrite msg =>
        cases r with
        | error ec => exact .inl rfl
        | ok bytes =>
          change ((w.transport.take i).onWritten (.ok bytes)).fault = none ∨
            ((w.transport.take i).onWritten (.ok bytes)).fault = _
          simp only [Transport.onWritten]
          split
          · exact .inr rfl
          · exact .inl rfl
  | _ => exact .inl running

/-- The loop goes on for ever: `read(buf, len)` neither returns nor throws. -/
def NeverEnds (len : Nat) (w : World κ β) (es : List (Event β)) : Prop :=
  ∀ rounds, readLoop len rounds w es = none

theorem readEnd_of_waits {len : Nat} {w : World κ β} (waits : w.Waits len) :
    readEnd len w = none := by
  simp only [readEnd, waits.1, Transport.read, if_pos waits.2, Option.map_none]

theorem readLoop_never {len : Nat} {w : World κ β} {es : List (Event β)}
    (waits : Along step (fun w _ => w.Waits len) w es)
    (last : readEnd len (run step w es) = none) : NeverEnds len w es := by
  intro rounds
  refine loop_never
    (I := fun x : World κ β × List (Event β) => Along step (fun w _ => w.Waits len) x.1 x.2 ∧
      readEnd len (run step x.1 x.2) = none) (fun x kept => ?_) ⟨waits, last⟩ rounds
  obtain ⟨w, es⟩ := x
  cases es with
  | nil => exact ⟨kept.2, kept⟩
  | cons e es => exact ⟨readEnd_of_waits kept.1.1, kept.1.2, kept.2⟩

theorem dry_run {w : World κ β} {before : List (Event β)} {e : Event β} {after : List (Event β)}
    (running : (run step w before).fault = none) (closes : (run step w before).Disconnects e)
    (spared : ∀ e ∈ after, ¬ e.Opens) : (run step w (before ++ e :: after)).Dry := by
  rw [run_append, run_cons]
  exact run_invariant_on (I := Dry) (E := fun e : Event β => ¬ e.Opens)
    (fun w e dry spares => dry.step spares) (dry_of_closes running closes) spared

/-- While `read()` waits, the events come; one of them closes the transport, it is not opened
again, and after them nothing is outstanding. -/
structure ClosedWhileReading (len : Nat) (w : World κ β) (es : List (Event β)) : Prop where
  waits : Along step (fun w _ => w.Waits len) w es
  closed : ∃ before e after, es = before ++ e :: after ∧ (run step w before).Disconnects e ∧
    ∀ e ∈ after, ¬ e.Opens
  noWork : (run step w es).transport.socket.ops = []

theorem fault_of_waits {len : Nat} {w : World κ β} {es : List (Event β)} (running : w.fault = none)
    (waits : Along step (fun w _ => w.Waits len) w es) :
    (run step w es).fault = none ∨ (run step w es).fault = some .undefinedBehaviour := by
  rcases es.eq_nil_or_concat with rfl | ⟨before, last, rfl⟩
  · exact .inl running
  · rw [List.concat_eq_append, along_append] at waits
    rw [List.concat_eq_append, run_concat]
    exact fault_step waits.2.1.1 last

theorem ClosedWhileReading.stuck {len : Nat} {w : World κ β} {es : List (Event β)}
    (h : ClosedWhileReading len w es) : readEnd len (run step w es) = none := by
  obtain ⟨before, e, after, rfl, closes, spared⟩ := h.closed
  obtain ⟨first, second⟩ := (along_append _ _ _ _ _).mp h.waits
  have waiting : (run step w before).Waits len := second.1
  have dry := dry_run waiting.1 closes spared
  have empty : (run step w (before ++ e :: after)).transport.incommingBytes = [] := by
    refine dry.clears.resolve_right ?_
    rintro ⟨ec, left⟩
    rw [h.noWork] at left
    cases left
  rw [run_append] at empty ⊢
  rcases fault_of_waits waiting.1 second with running | undefined
  · apply readEnd_of_waits
    exact ⟨running, by rw [Transport.availableBytes, empty]; exact Nat.zero_lt_of_lt waiting.2⟩
  · simp only [readEnd, undefined]

/-- `read()` never ends when its transport is closed while it waits, whatever else happens. -/
theorem read_never_ends (w : World κ β) (len : Nat) (es : List (Event β))
    (h : ClosedWhileReading len w es) : NeverEnds len w es := readLoop_never h.waits h.stuck

def twoBytes : World Unit UInt8 :=
  ⟨⟨⟨true, 1, [⟨.asyncReceive, none⟩], [.asyncReceive]⟩, [0, 0], [], 0⟩, [], none⟩

def peerGone : List (Event UInt8) := [.finish 0 (.error .eof), .run 0]

theorem closedWhileReading_peerGone : ClosedWhileReading 4 twoBytes peerGone := by
  refine ⟨⟨⟨rfl, by decide⟩, ⟨rfl, by decide⟩, trivial⟩, ?_, rfl⟩
  exact ⟨[.finish 0 (.error .eof)], .run 0, [], rfl, ⟨.eof, .inl rfl⟩, by simp⟩

theorem read_never_ends_peerGone : NeverEnds 4 twoBytes peerGone :=
  read_never_ends twoBytes 4 peerGone closedWhileReading_peerGone

/-- Waiting for the size of a frame, of which two bytes have come, when the peer closes. -/
theorem read_waits_for_closed_peer : ClosedWhileReading 4 twoBytes peerGone ∧
    ¬ ∃ rounds, (readLoop 4 rounds twoBytes peerGone).isSome := by
  refine ⟨closedWhileReading_peerGone, ?_⟩
  rintro ⟨rounds, ends⟩
  rw [readLoop_never closedWhileReading_peerGone.waits rfl] at ends
  cases ends

end World

end ThriftAsio
