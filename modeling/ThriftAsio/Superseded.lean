import ThriftAsio.Attempts

/-! Attempts to connect that `close()` or `connect_to()` should have ended. Neither handler of an
attempt knows which call it belongs to, and `close()` leaves the resolver alone; so what is still
to be handled decides. -/

namespace ThriftAsio
open Proactor Asio Machine

def Alive {κ α : Type} (o : Op κ (Except ErrorCode α)) : Prop := ∀ ec, o.result ≠ some (.error ec)

theorem Alive.of_settle {κ α : Type} {o : Op κ (Except ErrorCode α)} {r : Except ErrorCode α}
    (alive : Alive (o.settle r)) : Alive o := by
  intro ec failed
  exact alive ec (by simp [Op.settle, failed])

theorem Alive.of_abort {κ α : Type} {o : Op κ (Except ErrorCode α)} {ec : ErrorCode}
    (alive : Alive (o.settle (.error ec))) : o.settle (.error ec) = o ∧
      ∃ value, o.result = some (.ok value) := by
  cases result : o.result with
  | none => exact absurd (by simp [Op.settle, result]) (alive ec)
  | some r =>
    cases r with
    | error ec' => exact absurd (by simp [Op.settle, result]) (alive ec')
    | ok value => exact ⟨by cases o; simp_all [Op.settle], value, rfl⟩

namespace Attempts

variable {β : Type}

def Event.Opens : Event β → Prop
  | .open' | .connectTo _ => True
  | _ => False

def Event.Redirects : Event β → Prop
  | .connectTo _ => True
  | _ => False

def connects (a : Attempts β) : Event β → Option Query
  | .run i =>
    if a.fault.isSome then none
    else match ready a.transport.socket.ops i with
      | some (.own (.asyncConnect query), .ok _) => some query
      | _ => none
  | _ => none

theorem connects_eq_some {a : Attempts β} {e : Event β} {query : Query}
    (h : a.connects e = some query) : a.fault = none ∧ ∃ i bytes, e = .run i ∧
      ready a.transport.socket.ops i = some (.own (.asyncConnect query), .ok bytes) := by
  cases e with
  | run i =>
    simp only [connects] at h
    split at h
    · cases h
    · rename_i running
      split at h
      · rename_i found
        obtain rfl := Option.some.inj h
        exact ⟨by simpa using running, i, _, rfl, found⟩
      · cases h
  | _ => cases h

theorem connects_run {a : Attempts β} (running : a.fault = none) {i : Nat} {query : Query}
    {bytes : List β}
    (h : ready a.transport.socket.ops i = some (.own (.asyncConnect query), .ok bytes)) :
    a.connects (.run i) = some query := by
  simp [connects, running, h]

/-- What has not failed yet, of resolves and connects, is for these queries only. -/
structure Limited (Q : Query → Prop) (a : Attempts β) : Prop where
  resolver : ∀ o ∈ a.transport.resolver, Alive o → Q o.kind
  connects : ∀ o ∈ a.transport.socket.ops, ∀ query,
    o.kind = .own (.asyncConnect query) → Alive o → Q query

theorem stable_limited (Q : Query → Prop) :
    Stable fun o : Op (SocketOp ConnectOp) (Completion β) =>
      ∀ query, o.kind = .own (.asyncConnect query) → Alive o → Q query :=
  ⟨by simp, by simp, fun _ _ h query kind alive => h query kind alive.of_settle⟩

theorem Limited.step {Q : Query → Prop} {a : Attempts β} (limited : a.Limited Q) {e : Event β}
    (asked : e = .open' → Q a.transport.query) (sent : ∀ query, e = .connectTo query → Q query) :
    (a.step e).Limited Q := by
  refine ⟨?_, (stable_limited Q).step limited.connects ?_⟩
  · exact forall_resolver (R := fun o => Alive o → Q o.kind)
      (fun o r h alive => h alive.of_settle) limited.resolver (fun same _ => asked same)
      fun query same _ => sent query same
  · rintro i query - found q kind -
    obtain rfl : query = q := by simpa using kind
    exact limited.resolver _ (ready_mem found) (by simp [Alive])

theorem Limited.connected {Q : Query → Prop} {a : Attempts β} (limited : a.Limited Q)
    {e : Event β} {query : Query} (h : a.connects e = some query) : Q query := by
  obtain ⟨-, i, bytes, -, found⟩ := connects_eq_some h
  exact limited.connects _ (ready_mem found) query rfl (by simp [Alive])

/-- Nothing that `close()` does not abort can connect any more. -/
structure Clears (a : Attempts β) : Prop where
  resolver : ∀ o ∈ a.transport.resolver, ¬ Alive o
  connects : ∀ o ∈ a.transport.socket.ops, ∀ query bytes,
    o ≠ ⟨.own (.asyncConnect query), some (.ok bytes)⟩

/-- What `connect_to()` does not abort was asked for the same query. -/
structure ClearsFor (query : Query) (a : Attempts β) : Prop where
  resolver : ∀ o ∈ a.transport.resolver, o.result = some (.ok ()) → o.kind = query
  connects : ∀ o ∈ a.transport.socket.ops, ∀ query' bytes,
    o = ⟨.own (.asyncConnect query'), some (.ok bytes)⟩ → query' = query

theorem connected_before_close {t : ClientTransport β}
    (settled : t.isOpen = false → ∀ o ∈ t.socket.ops, Settled o)
    {o : Op (SocketOp ConnectOp) (Completion β)} (ho : o ∈ t.close.state.socket.ops) {query : Query}
    (kind : o.kind = .own (.asyncConnect query)) (alive : Alive o) :
    ∃ bytes, o = ⟨.own (.asyncConnect query), some (.ok bytes)⟩ ∧ o ∈ t.socket.ops := by
  have succeeded : o ∈ t.socket.ops → (∃ bytes, o.result = some (.ok bytes)) →
      ∃ bytes, o = ⟨.own (.asyncConnect query), some (.ok bytes)⟩ ∧ o ∈ t.socket.ops := by
    rintro member ⟨bytes, result⟩
    refine ⟨bytes, ?_, member⟩
    cases o
    simp_all
  cases opened : t.isOpen with
  | false =>
    have same : t.close.state.socket = t.socket := if_neg (by simp [opened])
    rw [same] at ho
    apply succeeded ho
    cases result : o.result with
    | none => exact absurd result (settled opened o ho _ kind)
    | some r =>
      cases r with
      | error ec => exact absurd result (alive ec)
      | ok bytes => exact ⟨bytes, rfl⟩
  | true =>
    have closed : t.close.state.socket = t.socket.cancel.close := if_pos opened
    rw [closed] at ho
    simp only [Socket.close, Socket.cancel, cancel_cancel] at ho
    obtain ⟨o', ho', rfl⟩ := List.mem_map.mp ho
    obtain ⟨same, value, result⟩ := alive.of_abort
    rw [same] at succeeded ⊢
    exact succeeded ho' ⟨value, result⟩

theorem connected_after_close {t : ClientTransport β} {query : Query} {bytes : List β}
    (h : (⟨.own (.asyncConnect query), some (.ok bytes)⟩ :
      Op (SocketOp ConnectOp) (Completion β)) ∈ t.socket.ops) :
    (⟨.own (.asyncConnect query), some (.ok bytes)⟩ :
      Op (SocketOp ConnectOp) (Completion β)) ∈ t.close.state.socket.ops := by
  change _ ∈ (Transport.close _).state.socket.ops
  rcases t.toTransport.close_socket with same | closed
  · rw [same]
    exact h
  · rw [closed]
    exact List.mem_map.mpr ⟨_, List.mem_map.mpr ⟨_, h, rfl⟩, rfl⟩

section Supersede

variable {a : Attempts β} (sound : a.Sound) (running : a.fault = none)
include sound running

theorem Clears.limited (clears : a.Clears) : (a.step .close).Limited fun _ => False := by
  rw [step_running running]
  refine ⟨fun o ho alive => clears.resolver o ho alive, fun o ho query kind alive => ?_⟩
  obtain ⟨bytes, succeeded, member⟩ := connected_before_close sound.settled ho kind alive
  exact clears.connects o member query bytes succeeded

theorem ClearsFor.limited {query : Query} (clears : a.ClearsFor query) :
    (a.step (.connectTo query)).Limited (· = query) := by
  rw [step_running running]
  refine ⟨fun o ho alive => ?_, fun o ho q kind alive => ?_⟩
  · rcases List.mem_append.mp ho with old | new
    · obtain ⟨o', ho', rfl⟩ := List.mem_map.mp old
      obtain ⟨same, u, result⟩ := alive.of_abort
      rw [same]
      exact clears.resolver o' ho' result
    · rw [List.mem_singleton.mp new]
  · obtain ⟨bytes, succeeded, member⟩ := connected_before_close sound.settled ho kind alive
    exact clears.connects o member q bytes succeeded

end Supersede

section Lead

variable {a : Attempts β} (running : a.fault = none) {i : Nat}
include running

theorem step_resolved {o : Op Query Resolution} (found : a.transport.resolver[i]? = some o)
    (alive : Alive o) : (a.step (.resolved i (.ok ()))).fault = none ∧
      ready (a.step (.resolved i (.ok ()))).transport.resolver i = some (o.kind, .ok ()) := by
  have settled : o.settle (.ok ()) = ⟨o.kind, some (.ok ())⟩ := by
    cases result : o.result with
    | none => simp [Op.settle, result]
    | some r =>
      cases r with
      | error ec => exact absurd result (alive ec)
      | ok u => simp [Op.settle, result]
  rw [step_running running]
  exact ⟨running, by simp [act, ready, Proactor.finish, found, settled]⟩

theorem step_runResolve {query : Query}
    (found : ready a.transport.resolver i = some (query, .ok ())) :
    (a.step (.runResolve i)).fault = none ∧ ∃ j : Nat,
      (a.step (.runResolve i)).transport.socket.ops[j]? =
        some ⟨.own (.asyncConnect query), none⟩ := by
  rw [step_running running]
  simp only [act, found]
  exact ⟨rfl, _, List.getElem?_concat_length⟩

theorem step_connected {query : Query}
    (started : a.transport.socket.ops[i]? = some ⟨.own (.asyncConnect query), none⟩) :
    (a.step (.finish i (.ok []))).connects (.run i) = some query := by
  have stepped := step_running running (.finish i (.ok []))
  apply connects_run
  · rw [stepped]
    exact running
  · rw [stepped]
    exact ready_finish started (.ok [])

end Lead

/-- A resolve that has not failed leads to a connection. -/
theorem exists_connected_of_resolve {a : Attempts β} (running : a.fault = none)
    {o : Op Query Resolution} (ho : o ∈ a.transport.resolver) (alive : Alive o) :
    ∃ es : List (Event β), (∀ e ∈ es, ¬ e.Opens) ∧
      ¬ Along step (fun b e => b.connects e ≠ some o.kind) a es := by
  obtain ⟨i, found⟩ := List.mem_iff_getElem?.mp ho
  obtain ⟨resolved, ready⟩ := step_resolved running found alive
  obtain ⟨connecting, j, started⟩ := step_runResolve resolved ready
  refine ⟨[.resolved i (.ok ()), .runResolve i, .finish j (.ok []), .run j], by simp [Event.Opens],
    fun never => ?_⟩
  obtain ⟨-, -, -, last, -⟩ := never
  exact last (step_connected connecting started)

theorem exists_connected_of_connect {a : Attempts β} (running : a.fault = none) {query : Query}
    {bytes : List β} (h : (⟨.own (.asyncConnect query), some (.ok bytes)⟩ :
      Op (SocketOp ConnectOp) (Completion β)) ∈ a.transport.socket.ops) :
    ∃ es : List (Event β), (∀ e ∈ es, ¬ e.Opens) ∧
      ¬ Along step (fun b e => b.connects e ≠ some query) a es := by
  obtain ⟨i, found⟩ := exists_ready h
  refine ⟨[.run i], by simp [Event.Opens], fun never => ?_⟩
  exact never.1 (connects_run running found)

def StaysClosed (a : Attempts β) : Prop :=
  ∀ es : List (Event β), (∀ e ∈ es, ¬ e.Opens) → Along step (fun b e => b.connects e = none) a es

def StaysOn (query : Query) (a : Attempts β) : Prop :=
  ∀ es : List (Event β), (∀ e ∈ es, ¬ e.Redirects) →
    Along step (fun b e => ∀ q, b.connects e = some q → q = query) a es

theorem Limited.staysClosed {a : Attempts β} (limited : a.Limited fun _ => False) :
    a.StaysClosed := by
  intro es spared
  refine along_of_invariant (I := Limited fun _ => False) (fun b e limited spares => ?_) limited
    (along_of_forall (E := fun e : Event β => ¬ e.Opens) a spared)
  refine ⟨?_, limited.step ?_ ?_⟩
  · cases h : b.connects e with
    | none => rfl
    | some query => exact absurd (limited.connected h) id
  · rintro rfl
    exact spares trivial
  · rintro query rfl
    exact spares trivial

theorem query_handle (t : ClientTransport β) (op : SocketOp ConnectOp) (r : Completion β) :
    (t.handle op r).state.query = t.query := by
  cases op with
  | own op => cases r <;> rfl
  | _ => rfl

theorem query_step {a : Attempts β} {e : Event β} (spares : ¬ e.Redirects) :
    (a.step e).transport.query = a.transport.query := by
  by_cases running : a.fault = none
  · rw [step_running running]
    cases e with
    | connectTo query => exact absurd trivial spares
    | read len =>
      simp only [act]
      split <;> rfl
    | runResolve i =>
      simp only [act]
      split
      · rfl
      · rename_i query r found
        cases r <;> rfl
    | nextEndpoint i =>
      simp only [act, ClientTransport.nextEndpoint]
      split <;> rfl
    | run i =>
      simp only [act]
      split
      · rfl
      · exact query_handle _ _ _
    | _ => rfl
  · rw [step_dead running]

theorem Limited.staysOn {a : Attempts β} {query : Query} (limited : a.Limited (· = query))
    (asked : a.transport.query = query) : a.StaysOn query := by
  intro es spared
  refine along_of_invariant (I := fun b => b.Limited (· = query) ∧ b.transport.query = query)
    (fun b e kept spares => ?_) ⟨limited, asked⟩
    (along_of_forall (E := fun e : Event β => ¬ e.Redirects) a spared)
  obtain ⟨limited, asked⟩ := kept
  refine ⟨fun q connected => limited.connected connected, limited.step (fun _ => asked) ?_, ?_⟩
  · rintro q rfl
    exact absurd trivial spares
  · rw [query_step spares, asked]

theorem dead_along {a : Attempts β} (dead : a.fault ≠ none) (es : List (Event β)) :
    Along step (fun b e => b.connects e = none) a es := by
  refine along_of_invariant (I := fun b : Attempts β => b.fault ≠ none) (C := fun _ _ => True)
    (fun b e dead _ => ⟨?_, by rwa [step_dead dead]⟩) dead (along_of_forall a fun _ _ => trivial)
  cases h : b.connects e with
  | none => rfl
  | some query => exact absurd (connects_eq_some h).1 dead

section Exact

variable {a : Attempts β} (sound : a.Sound) (running : a.fault = none)
include sound running

theorem staysClosed_iff : (a.step .close).StaysClosed ↔ a.Clears := by
  have closing := step_running running (.close : Event β)
  have closedRunning : (a.step .close).fault = none := by rw [closing]; rfl
  constructor
  · intro stays
    refine ⟨fun o ho alive => ?_, fun o ho query bytes same => ?_⟩
    · have kept : o ∈ (a.step .close).transport.resolver := by rw [closing]; exact ho
      obtain ⟨es, spared, connected⟩ := exists_connected_of_resolve closedRunning kept alive
      refine connected (along_of_invariant (I := fun _ => True) (fun b e _ never => ?_) trivial
        (stays es spared))
      simp [never]
    · subst same
      have kept : (⟨.own (.asyncConnect query), some (.ok bytes)⟩ :
          Op (SocketOp ConnectOp) (Completion β)) ∈ (a.step .close).transport.socket.ops := by
        rw [closing]
        exact connected_after_close ho
      obtain ⟨es, spared, connected⟩ := exists_connected_of_connect closedRunning kept
      refine connected (along_of_invariant (I := fun _ => True) (fun b e _ never => ?_) trivial
        (stays es spared))
      simp [never]
  · intro clears
    exact (clears.limited sound running).staysClosed

theorem staysOn_iff (query : Query) :
    (a.step (.connectTo query)).StaysOn query ↔ a.ClearsFor query := by
  have moving := step_running running (.connectTo query : Event β)
  have movedRunning : (a.step (.connectTo query)).fault = none := by rw [moving]; rfl
  have spare : ∀ e : Event β, ¬ e.Opens → ¬ e.Redirects := by
    intro e spares redirects
    cases e <;> first | exact redirects | exact spares trivial
  constructor
  · intro stays
    refine ⟨fun o ho result => ?_, fun o ho q bytes same => ?_⟩
    · by_contra other
      have kept : o ∈ (a.step (.connectTo query)).transport.resolver := by
        rw [moving]
        refine List.mem_append_left _ (List.mem_map.mpr ⟨o, ho, ?_⟩)
        cases o
        simp_all [Op.settle]
      obtain ⟨es, spared, connected⟩ :=
        exists_connected_of_resolve movedRunning kept (by simp [Alive, result])
      refine connected (along_of_invariant (I := fun _ => True) (fun b e _ only => ?_) trivial
        (stays es fun e he => spare e (spared e he)))
      exact ⟨fun connects => other (only o.kind connects), trivial⟩
    · subst same
      by_contra other
      have kept : (⟨.own (.asyncConnect q), some (.ok bytes)⟩ :
          Op (SocketOp ConnectOp) (Completion β)) ∈
            (a.step (.connectTo query)).transport.socket.ops := by
        rw [moving]
        exact connected_after_close ho
      obtain ⟨es, spared, connected⟩ := exists_connected_of_connect movedRunning kept
      refine connected (along_of_invariant (I := fun _ => True) (fun b e _ only => ?_) trivial
        (stays es fun e he => spare e (spared e he)))
      exact ⟨fun connects => other (only q connects), trivial⟩
  · intro clears
    refine (clears.limited sound running).staysOn ?_
    rw [moving]
    rfl

end Exact

/-- `close()` and `connect_to()` are only called when nothing that they do not abort can connect,
to another endpoint at least. -/
def Cleared (a : Attempts β) : Event β → Prop
  | .close => a.Clears
  | .connectTo query => a.ClearsFor query
  | _ => True

/-- Neither after a `close()` nor, for another host, after a `connect_to()` is a connection
reported in the run, until the transport is opened again. -/
structure NeverSuperseded (query : Query) (es : List (Event β)) : Prop where
  close : ∀ before after rest, es = before ++ .close :: (after ++ rest) →
    (∀ e ∈ after, ¬ e.Opens) →
      Along step (fun b e => b.connects e = none)
        (run step (create query) (before ++ [.close])) after
  connectTo : ∀ before host after rest, es = before ++ .connectTo host :: (after ++ rest) →
    (∀ e ∈ after, ¬ e.Redirects) →
      Along step (fun b e => ∀ q, b.connects e = some q → q = host)
        (run step (create query) (before ++ [.connectTo host])) after

/-- In every run whose calls of `close()` and `connect_to()` find nothing left that can connect,
no attempt that they supersede succeeds; and wherever they do find something, one may succeed. -/
theorem neverSuperseded_of_cleared (query : Query) :
    (∀ es : List (Event β), Along step Cleared (create query) es → NeverSuperseded query es) ∧
      ∀ es : List (Event β), (run step (create query) es).fault = none →
        ((run step (create query) (es ++ [.close])).StaysClosed ↔
            (run step (create query) es).Clears) ∧
          ∀ host, (run step (create query) (es ++ [.connectTo host])).StaysOn host ↔
            (run step (create query) es).ClearsFor host := by
  refine ⟨fun es cleared => ⟨?_, ?_⟩, fun es running => ⟨?_, fun host => ?_⟩⟩
  · rintro before after rest rfl spared
    rw [along_append] at cleared
    rw [run_concat]
    by_cases running : (run step (create query) before).fault = none
    · exact (staysClosed_iff (sound_run query before) running).mpr cleared.2.1 after spared
    · rw [step_dead running]
      exact dead_along running after
  · rintro before host after rest rfl spared
    rw [along_append] at cleared
    rw [run_concat]
    by_cases running : (run step (create query) before).fault = none
    · exact (staysOn_iff (sound_run query before) running host).mpr cleared.2.1 after spared
    · rw [step_dead running]
      refine along_of_invariant (I := fun _ => True) (fun b e _ never => ⟨?_, trivial⟩) trivial
        (dead_along running after)
      simp [never]
  · rw [run_concat]
    exact staysClosed_iff (sound_run query es) running
  · rw [run_concat]
    exact staysOn_iff (sound_run query es) running host

def localhost : Query := ⟨"localhost", "1234"⟩

def closedAfterFailure : List (Event UInt8) :=
  [.open', .resolved 0 (.error .eof), .runResolve 0, .close]

theorem neverSuperseded_after_failure : NeverSuperseded localhost closedAfterFailure ∧
    (run step (create localhost) (closedAfterFailure ++ [.close])).StaysClosed := by
  obtain ⟨along, exact'⟩ := neverSuperseded_of_cleared localhost
  refine ⟨along closedAfterFailure ⟨trivial, trivial, trivial, ⟨?_, ?_⟩, trivial⟩,
    (exact' closedAfterFailure rfl).1.mpr ⟨?_, ?_⟩⟩
  · intro o ho
    cases ho
  · intro o ho
    cases ho
  · intro o ho
    cases ho
  · intro o ho
    cases ho

def closedWhileResolving : List (Event UInt8) :=
  [.open', .close, .resolved 0 (.ok ()), .runResolve 0, .finish 0 (.ok []), .run 0]

def redirectedWhenResolved : List (Event UInt8) :=
  [.open', .resolved 0 (.ok ()), .connectTo ⟨"example.org", "1234"⟩, .runResolve 0,
    .finish 0 (.ok []), .run 0]

theorem superseded_attempts_succeed : ¬ NeverSuperseded localhost closedWhileResolving ∧
    ¬ NeverSuperseded localhost redirectedWhenResolved := by
  constructor
  · intro never
    obtain ⟨-, -, -, last, -⟩ := never.close [.open'] (closedWhileResolving.drop 2) [] rfl
      (by simp [closedWhileResolving, Event.Opens])
    exact absurd last (by decide)
  · intro never
    obtain ⟨-, -, last, -⟩ := never.connectTo [.open', .resolved 0 (.ok ())]
      ⟨"example.org", "1234"⟩ (redirectedWhenResolved.drop 3) [] rfl
      (by simp [redirectedWhenResolved, Event.Redirects])
    exact absurd (last localhost (by decide)) (by decide)

end Attempts

end ThriftAsio
