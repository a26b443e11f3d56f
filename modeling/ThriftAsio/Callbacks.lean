import ThriftAsio.Attempts

/-! How `on_connected` and `on_disconnected` follow each other. `close()` calls the latter every
time, also when nothing was connected, and a lost connection is reported by every operation that
was outstanding on it. -/

namespace ThriftAsio
open Proactor Asio Machine

/-- Whether the transport is connected after a callback, if the callback is due. -/
def Callback.turn : Bool → Callback → Option Bool
  | up, .onError _ => some up
  | up, .onConnected => if up then none else some true
  | up, .onDisconnected => if up then some false else none

def turns (calls : List Callback) : Option Bool := calls.foldlM Callback.turn false

def Alternates (calls : List Callback) : Prop := turns calls ≠ none

instance : DecidablePred Alternates := fun calls =>
  inferInstanceAs (Decidable (turns calls ≠ none))

theorem turns_append (calls more : List Callback) :
    turns (calls ++ more) = (turns calls).bind fun up => more.foldlM Callback.turn up :=
  List.foldlM_append

theorem Alternates.of_append {calls more : List Callback} (h : Alternates (calls ++ more)) :
    Alternates calls := by
  intro never
  apply h
  rw [turns_append, never]
  rfl

theorem count_of_turns {calls : List Callback} {up : Bool} (h : turns calls = some up) :
    calls.count .onConnected = calls.count .onDisconnected + if up then 1 else 0 := by
  induction calls using List.reverseRecOn generalizing up with
  | nil =>
    obtain rfl : false = up := Option.some.inj h
    rfl
  | append_singleton calls call ih =>
    rw [turns_append] at h
    obtain ⟨before, same, h⟩ := Option.bind_eq_some_iff.mp h
    have counted := ih same
    cases call <;> cases before <;> simp_all [Callback.turn]

namespace Attempts

variable {β : Type}

def receives (a : Attempts β) : Nat := a.transport.socket.outstanding.count .asyncReceive

/-- Nobody calls `close()` or `connect_to()`, only a receive fails, and a connection is reported
only while no receive is outstanding. -/
def Orderly (a : Attempts β) : Event β → Prop
  | .close | .connectTo _ => False
  | .runResolve i =>
    match ready a.transport.resolver i with
    | some (_, .error _) => False
    | _ => True
  | .run i =>
    match ready a.transport.socket.ops i with
    | some (.own _, .ok _) => a.receives = 0
    | some (.own _, .error _) | some (.asyncWrite _, .error _) => False
    | _ => True
  | _ => True

inductive Reported (a : Attempts β) (e : Event β) : Prop where
  | nothing (orderly : a.Orderly e) (calls : (a.step e).calls = a.calls)
      (receives : (a.step e).receives = a.receives)
  | needless (disorderly : ¬ a.Orderly e) (errors : List Callback)
      (calls : (a.step e).calls = a.calls ++ (errors ++ [.onDisconnected]))
      (only : errors = [] ∨ ∃ ec, errors = [.onError ec])
      (receives : (a.step e).receives = a.receives)
  | lost (orderly : a.Orderly e) (ec : ErrorCode)
      (calls : (a.step e).calls = a.calls ++ [.onError ec, .onDisconnected])
      (receives : (a.step e).receives + 1 = a.receives)
  | connected (orderly : a.Orderly e ↔ a.receives = 0)
      (calls : (a.step e).calls = a.calls ++ [.onConnected])
      (receives : (a.step e).fault = none → (a.step e).receives = a.receives + 1)

theorem outstanding_closed (t : ClientTransport β) :
    t.close.state.socket.outstanding = t.socket.outstanding := t.toTransport.outstanding_close

theorem count_start (s : Socket (SocketOp ConnectOp) β) {op : SocketOp ConnectOp}
    (other : op ≠ .asyncReceive) :
    (s.start op).outstanding.count .asyncReceive = s.outstanding.count .asyncReceive := by
  rw [Socket.outstanding_start, List.count_append, List.count_singleton]
  simp [other]

theorem count_write (t : ClientTransport β) (buf : List UInt8) :
    (t.toTransport.write buf).socket.outstanding.count .asyncReceive =
      t.socket.outstanding.count .asyncReceive := by
  rcases t.toTransport.write_socket buf with same | ⟨msg, started⟩
  · rw [same]
  · rw [started, count_start _ (by simp)]

theorem count_take {s : Socket (SocketOp ConnectOp) β} {i : Nat}
    {o : Op (SocketOp ConnectOp) (Completion β)} (h : s.ops[i]? = some o) :
    (s.take i).outstanding.count .asyncReceive + (if o.kind = .asyncReceive then 1 else 0) =
      s.outstanding.count .asyncReceive := by
  obtain ⟨before, after, split, rest⟩ := eraseIdx_split h
  have taken : (s.take i).outstanding = kinds before ++ kinds after := by
    rw [Socket.outstanding, Socket.take, rest, kinds_append]
  have all : s.outstanding = kinds before ++ o.kind :: kinds after := by
    rw [Socket.outstanding, split, kinds_append, kinds_cons]
  simp only [taken, all, List.count_append, List.count_cons, beq_iff_eq]
  omega

theorem count_received (t : ClientTransport β) (bytes : List β) :
    (t.handle .asyncReceive (.ok bytes)).state.socket.outstanding.count .asyncReceive =
      t.socket.outstanding.count .asyncReceive + 1 := by
  change (t.socket.start .asyncReceive).outstanding.count _ = _
  rw [Socket.outstanding_start, List.count_append]
  rfl

theorem count_written (t : ClientTransport β) (msg : Message) (bytes : List β) :
    (t.handle (.asyncWrite msg) (.ok bytes)).state.socket.outstanding.count .asyncReceive =
      t.socket.outstanding.count .asyncReceive := by
  change (Transport.onWritten _ _).state.socket.outstanding.count _ = _
  rcases t.toTransport.onWritten_ok_socket bytes with same | ⟨msg, started⟩
  · rw [same]
  · rw [started, count_start _ (by simp)]

theorem count_connected (t : ClientTransport β) (op : ConnectOp) (bytes : List β)
    (running : (t.handle (.own op) (.ok bytes)).fault = none) :
    (t.handle (.own op) (.ok bytes)).state.socket.outstanding.count .asyncReceive =
      t.socket.outstanding.count .asyncReceive + 1 := by
  change (Transport.open' _).fault = none at running
  change (Transport.open' _).state.socket.outstanding.count _ = _
  simp only [Transport.open'] at running ⊢
  split at running
  · rename_i opened
    simp only [opened, if_true]
    rw [Socket.outstanding_start, List.count_append]
    rfl
  · cases running

section Step

variable {a : Attempts β} (running : a.fault = none)
include running

theorem reported_runResolve (i : Nat) : a.Reported (.runResolve i) := by
  have stepped := step_running running (.runResolve i)
  cases found : ready a.transport.resolver i with
  | none =>
    apply Reported.nothing
    · simp only [Orderly, found]
    · rw [stepped]
      simp only [act, found]
    · rw [stepped]
      simp only [act, found, receives]
  | some op =>
    obtain ⟨query, r⟩ := op
    cases r with
    | error ec =>
      refine .needless ?_ [.onError ec] ?_ (.inr ⟨ec, rfl⟩) ?_
      · simp only [Orderly, found, not_false_eq_true]
      · rw [stepped]
        simp only [act, found]
        rfl
      · rw [stepped]
        simp only [act, found, receives]
        exact congrArg (List.count _)
          (outstanding_closed { a.transport with resolver := a.transport.resolver.eraseIdx i })
    | ok u =>
      apply Reported.nothing
      · simp only [Orderly, found]
      · rw [stepped]
        simp only [act, found]
        exact List.append_nil _
      · rw [stepped]
        simp only [act, found, receives]
        exact (count_start _ (by simp)).trans
          (congrArg (List.count _) (Socket.outstanding_reopen a.transport.socket))

theorem reported_nextEndpoint (i : Nat) : a.Reported (.nextEndpoint i) := by
  have stepped := step_running running (.nextEndpoint i)
  apply Reported.nothing
  · trivial
  · rw [stepped]
    rfl
  · rw [stepped]
    simp only [act, receives, ClientTransport.nextEndpoint]
    split
    · rename_i query found
      have left := count_take found
      simp only [reduceCtorEq, if_false, Nat.add_zero] at left
      rw [← left]
      exact (count_start _ (by simp)).trans
        (congrArg (List.count _) (Socket.outstanding_reopen (a.transport.socket.take i)))
    · rfl

section Handler

variable {i : Nat} {op : SocketOp ConnectOp}

theorem reported_failed {ec : ErrorCode}
    (found : ready a.transport.socket.ops i = some (op, .error ec)) : a.Reported (.run i) := by
  have stepped := step_running running (.run i)
  have left := count_take (getElem?_of_ready found)
  have calls : (a.step (.run i)).calls = a.calls ++ [.onError ec, .onDisconnected] := by
    rw [stepped]
    simp only [act, found, ClientTransport.handle_error]
    rfl
  have after : (a.step (.run i)).receives =
      (a.transport.socket.take i).outstanding.count .asyncReceive := by
    rw [stepped]
    simp only [act, found, receives, after_transport, ClientTransport.handle_error]
    exact congrArg (List.count _) (outstanding_closed (onBase a.transport (·.take i)))
  cases op with
  | asyncReceive =>
    refine .lost ?_ ec calls ?_
    · simp only [Orderly, found]
    · rw [after]
      exact left
  | _ =>
    refine .needless ?_ [.onError ec] calls (.inr ⟨ec, rfl⟩) ?_
    · simp only [Orderly, found, not_false_eq_true]
    · rw [after]
      exact left

theorem reported_succeeded {bytes : List β}
    (found : ready a.transport.socket.ops i = some (op, .ok bytes)) : a.Reported (.run i) := by
  have stepped := step_running running (.run i)
  have left := count_take (getElem?_of_ready found)
  let taken := onBase a.transport (·.take i)
  have calls : (a.step (.run i)).calls = a.calls ++ (taken.handle op (.ok bytes)).calls := by
    rw [stepped]
    simp only [act, found]
    rfl
  rw [ClientTransport.calls_handle_ok] at calls
  have after : (a.step (.run i)).receives =
      (taken.handle op (.ok bytes)).state.socket.outstanding.count .asyncReceive := by
    rw [stepped]
    simp only [act, found, receives]
    rfl
  cases op with
  | asyncReceive =>
    apply Reported.nothing
    · simp only [Orderly, found]
    · exact calls.trans (List.append_nil _)
    · rw [after, count_received]
      exact left
  | asyncWrite msg =>
    apply Reported.nothing
    · simp only [Orderly, found]
    · exact calls.trans (List.append_nil _)
    · rw [after, count_written]
      exact left
  | own op =>
    refine .connected ?_ calls fun still => ?_
    · simp only [Orderly, found]
    · have running' : (taken.handle (.own op) (.ok bytes)).fault = none := by
        rw [stepped] at still
        simp only [act, found] at still
        exact still
      rw [after, count_connected taken op bytes running']
      exact congrArg (· + 1) left

end Handler

theorem reported_run (i : Nat) : a.Reported (.run i) := by
  have stepped := step_running running (.run i)
  cases found : ready a.transport.socket.ops i with
  | none =>
    apply Reported.nothing
    · simp only [Orderly, found]
    · rw [stepped]
      simp only [act, found]
    · rw [stepped]
      simp only [act, found, receives]
  | some x =>
    obtain ⟨op, ec | bytes⟩ := x
    · exact reported_failed running found
    · exact reported_succeeded running found

theorem reported (e : Event β) : a.Reported e := by
  have stepped := step_running running e
  cases e with
  | close =>
    refine .needless (fun h => h) [] ?_ (.inl rfl) ?_
    · rw [stepped]
      rfl
    · rw [stepped]
      exact congrArg (List.count _) (outstanding_closed a.transport)
  | connectTo query =>
    refine .needless (fun h => h) [] ?_ (.inl rfl) ?_
    · rw [stepped]
      rfl
    · rw [stepped]
      exact congrArg (List.count _) (outstanding_closed a.transport)
  | open' => exact .nothing trivial (by rw [stepped]; rfl) (by rw [stepped]; rfl)
  | write buf =>
    refine .nothing trivial (by rw [stepped]; rfl) ?_
    rw [stepped]
    exact count_write a.transport buf
  | read len =>
    refine .nothing trivial ?_ ?_
    · rw [stepped]
      simp only [act]
      split <;> rfl
    · rw [stepped]
      simp only [act, receives]
      split
      · rfl
      · rename_i bytes rest enough
        obtain ⟨-, -, rfl⟩ := Transport.read_some enough
        rfl
  | resolved i r => exact .nothing trivial (by rw [stepped]; rfl) (by rw [stepped]; rfl)
  | runResolve i => exact reported_runResolve running i
  | finish i r =>
    refine .nothing trivial (by rw [stepped]; rfl) ?_
    rw [stepped]
    exact congrArg (List.count _) (Socket.outstanding_finish a.transport.socket i r)
  | nextEndpoint i => exact reported_nextEndpoint running i
  | run i => exact reported_run running i

end Step

/-- The callbacks are in turn, and a receive is outstanding while the transport is connected. -/
def InTurn (a : Attempts β) : Prop :=
  ∃ up, turns a.calls = some up ∧ (a.fault = none → a.receives = if up then 1 else 0)

theorem turns_error (calls : List Callback) (ec : ErrorCode) :
    turns (calls ++ [.onError ec]) = turns calls := by
  rw [turns_append]
  cases turns calls <;> rfl

theorem turns_connected {calls : List Callback} (h : turns calls = some false) :
    turns (calls ++ [.onConnected]) = some true := by
  rw [turns_append, h]
  rfl

theorem turns_disconnected {calls : List Callback} (h : turns calls = some true) :
    turns (calls ++ [.onDisconnected]) = some false := by
  rw [turns_append, h]
  rfl

theorem InTurn.step {a : Attempts β} {e : Event β} (ok : a.InTurn) (orderly : a.Orderly e) :
    (a.step e).InTurn := by
  by_cases running : a.fault = none
  · obtain ⟨up, turned, count⟩ := ok
    replace count := count running
    cases reported running e with
    | nothing _ calls receives =>
      exact ⟨up, by rw [calls, turned], fun _ => by rw [receives, count]⟩
    | needless disorderly => exact absurd orderly disorderly
    | lost _ ec calls receives =>
      cases up with
      | false =>
        simp only [Bool.false_eq_true, if_false] at count
        omega
      | true =>
        refine ⟨false, ?_, fun _ => ?_⟩
        · rw [calls, ← List.singleton_append, ← List.append_assoc]
          exact turns_disconnected (by rw [turns_error, turned])
        · simp only [if_true] at count
          simp only [Bool.false_eq_true, if_false]
          omega
    | connected idle calls receives =>
      have none := idle.mp orderly
      cases up with
      | true =>
        simp only [if_true] at count
        omega
      | false =>
        refine ⟨true, by rw [calls, turns_connected turned], fun still => ?_⟩
        rw [receives still, none]
        rfl
  · rw [step_dead running]
    exact ok

def Reporting (a : Attempts β) : Prop :=
  a.fault = none → a.calls.count .onConnected ≤ a.calls.count .onDisconnected + a.receives

/-- In turn, with no more ends reported than there were connections. -/
structure Exact (a : Attempts β) : Prop where
  running : a.fault = none
  ends : a.calls.count .onDisconnected + a.receives ≤ a.calls.count .onConnected
  alternates : Alternates a.calls

theorem running_of_step {a : Attempts β} {e : Event β} (h : (a.step e).fault = none) :
    a.fault = none := by
  by_contra dead
  rw [step_dead dead] at h
  exact dead h

theorem count_errors {errors : List Callback} (only : errors = [] ∨ ∃ ec, errors = [.onError ec]) :
    errors.count .onConnected = 0 ∧ errors.count .onDisconnected = 0 := by
  rcases only with rfl | ⟨ec, rfl⟩
  · exact ⟨rfl, rfl⟩
  · simp

theorem Reporting.step {a : Attempts β} (ok : a.Reporting) (e : Event β) :
    (a.step e).Reporting := by
  intro still
  have running := running_of_step still
  have before := ok running
  cases reported running e with
  | nothing _ calls receives => rwa [calls, receives]
  | needless _ errors calls only receives =>
    obtain ⟨connected, disconnected⟩ := count_errors only
    simp only [calls, receives, List.count_append, connected, disconnected]
    simp
    omega
  | lost _ ec calls receives =>
    simp [calls]
    omega
  | connected _ calls receives =>
    simp [calls, receives still]
    omega

theorem Exact.of_step {a : Attempts β} {e : Event β} (ok : (a.step e).Exact) : a.Exact := by
  have running := running_of_step ok.running
  have ends := ok.ends
  have alternates := ok.alternates
  cases reported running e with
  | nothing _ calls receives =>
    rw [calls] at alternates ends
    rw [receives] at ends
    exact ⟨running, ends, alternates⟩
  | needless _ errors calls only receives =>
    obtain ⟨connected, disconnected⟩ := count_errors only
    rw [calls] at alternates ends
    refine ⟨running, ?_, alternates.of_append⟩
    simp only [receives, List.count_append, connected, disconnected] at ends
    simp at ends
    omega
  | lost _ ec calls receives =>
    rw [calls] at alternates ends
    refine ⟨running, ?_, alternates.of_append⟩
    simp at ends
    omega
  | connected _ calls receives =>
    rw [calls] at alternates ends
    refine ⟨running, ?_, alternates.of_append⟩
    simp [receives ok.running] at ends
    omega

theorem Exact.orderly {a : Attempts β} {e : Event β} (reporting : a.Reporting)
    (ok : (a.step e).Exact) : a.Orderly e := by
  have running := running_of_step ok.running
  have before := reporting running
  have ends := ok.ends
  cases reported running e with
  | nothing orderly => exact orderly
  | lost orderly => exact orderly
  | needless _ errors calls only receives =>
    obtain ⟨connected, disconnected⟩ := count_errors only
    simp only [calls, receives, List.count_append, connected, disconnected] at ends
    simp at ends
    omega
  | connected idle calls receives =>
    apply idle.mpr
    have alternates := ok.alternates
    rw [Alternates, calls, turns_append] at alternates
    obtain ⟨up, due⟩ := Option.ne_none_iff_exists'.mp alternates
    obtain ⟨before', turned, due⟩ := Option.bind_eq_some_iff.mp due
    have down : before' = false := by
      cases before' with
      | false => rfl
      | true => cases due
    subst down
    have counted := count_of_turns turned
    simp [calls, receives ok.running] at ends counted
    omega

/-- The callbacks of every orderly run alternate; and where the program has not failed and no
receive is left, they do so only in orderly runs. -/
theorem alternates_of_orderly (query : Query) :
    (∀ es : List (Event β), Along step Orderly (create query) es →
        Alternates (run step (create query) es).calls) ∧
      ∀ es : List (Event β), (run step (create query) es).fault = none →
        (run step (create query) es).receives = 0 →
          (Alternates (run step (create query) es).calls ↔
            Along step Orderly (create query) es) := by
  have sufficient : ∀ es : List (Event β), Along step Orderly (create query) es →
      Alternates (run step (create query) es).calls := by
    intro es orderly
    obtain ⟨up, turned, -⟩ := run_invariant_along (I := InTurn)
      (fun a e ok orderly => ok.step orderly) ⟨false, rfl, fun _ => rfl⟩ orderly
    rw [Alternates, turned]
    exact Option.some_ne_none up
  refine ⟨sufficient, fun es running none => ⟨fun alternates => ?_, sufficient es⟩⟩
  obtain ⟨up, turned⟩ := Option.ne_none_iff_exists'.mp alternates
  have counted := count_of_turns turned
  have last : (run step (create query) es).Exact := ⟨running, by omega, alternates⟩
  have along := (along_of_kept (fun a e (ok : (step a e).Exact) => ok.of_step) last).2
  have start : (create query : Attempts β).Reporting := fun _ => Nat.le_refl 0
  exact along_of_invariant (I := Reporting) (fun a e ok exact' => ⟨exact'.orderly ok, ok.step e⟩)
    start along

def peerCloses : List (Event UInt8) :=
  [.open', .resolved 0 (.ok ()), .runResolve 0, .finish 0 (.ok []), .run 0,
    .finish 0 (.error .eof), .run 0]

theorem alternates_peer_closes :
    Alternates (run step (create ⟨"localhost", "1234"⟩) peerCloses).calls ∧
      Along step Orderly (create ⟨"localhost", "1234"⟩) peerCloses := by
  obtain ⟨sufficient, necessary⟩ := alternates_of_orderly (β := UInt8) ⟨"localhost", "1234"⟩
  have orderly : Along step Orderly (create ⟨"localhost", "1234"⟩) peerCloses :=
    ⟨trivial, trivial, trivial, trivial, rfl, trivial, trivial, trivial⟩
  have alternates := sufficient peerCloses orderly
  exact ⟨alternates, (necessary peerCloses rfl rfl).mp alternates⟩

/-- A name that cannot be resolved, and a connection that the user closes: its receive is aborted
and reports the end once more. -/
theorem ends_without_connection :
    ¬ Alternates (run step (create ⟨"localhost", "1234"⟩ : Attempts UInt8)
        [.open', .resolved 0 (.error .eof), .runResolve 0]).calls ∧
      ¬ Alternates (run step (create ⟨"localhost", "1234"⟩ : Attempts UInt8)
        [.open', .resolved 0 (.ok ()), .runResolve 0, .finish 0 (.ok []), .run 0, .close,
          .run 0]).calls := by
  decide

end Attempts

end ThriftAsio
