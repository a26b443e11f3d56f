import ThriftAsio.Client

/-! The reconnect timer. The handler of a wait that was cancelled calls `on_error`, which arms a
new timer and cancels the one before; so a cancelled wait next to a pending one keeps the client
rearming forever, and each time the delay starts again. -/

namespace ThriftAsio
open Proactor Asio Machine

namespace Timers

abbrev Wait := Op Nat (Except ErrorCode Unit)

def isCancelled (w : Wait) : Bool :=
  match w.result with
  | some (.error _) => true
  | _ => false

def isPending (w : Wait) : Bool := w.result.isNone

def cancelled (t : Timers) : Nat := t.waits.countP isCancelled

def pending (t : Timers) : Nat := t.waits.countP isPending

/-- Only the wait of `reconnect_timer` is pending, and it is not cancelled. -/
structure Wellformed (t : Timers) : Prop where
  last : ∀ timer, t.reconnectTimer = some timer → t.made = timer + 1
  bound : ∀ w ∈ t.waits, w.kind < t.made
  current : ∀ w ∈ t.waits, isPending w → t.reconnectTimer = some w.kind
  spared : ∀ w ∈ t.waits, isCancelled w → t.reconnectTimer ≠ some w.kind
  single : t.pending ≤ 1

theorem isPending_settle (r : Except ErrorCode Unit) (w : Wait) :
    isPending (w.settle r) = false := by
  cases h : w.result <;> simp [isPending, Op.settle, h]

theorem isCancelled_settle_ok (w : Wait) : isCancelled (w.settle (.ok ())) = isCancelled w := by
  obtain ⟨kind, result⟩ := w
  cases result <;> rfl

theorem isCancelled_settle_error (ec : ErrorCode) (w : Wait) :
    isCancelled (w.settle (.error ec)) = (isCancelled w || isPending w) := by
  obtain ⟨kind, result⟩ := w
  cases result with
  | none => rfl
  | some r => cases r <;> rfl

theorem isPending_iff (w : Wait) : isPending w → isCancelled w = false := by
  obtain ⟨kind, result⟩ := w
  cases result <;> simp [isPending, isCancelled]

theorem Wellformed.cancelled_rearm_wait {t : Timers} (ok : t.Wellformed) {w : Wait}
    (hw : w ∈ t.waits) :
    let w' := if t.reconnectTimer == some w.kind then w.settle (.error .operationAborted) else w
    isCancelled w' = (isCancelled w || isPending w) ∧ isPending w' = false := by
  intro w'
  by_cases h : t.reconnectTimer = some w.kind
  · have hw' : w' = w.settle (.error .operationAborted) := by simp [w', h]
    rw [hw']
    exact ⟨isCancelled_settle_error _ w, isPending_settle _ w⟩
  · have hw' : w' = w := by simp [w', h]
    have idle : isPending w = false := by
      by_contra hp
      exact h (ok.current w hw (by simpa using hp))
    rw [hw']
    simp [idle]

theorem countP_split (ws : List Wait) :
    ws.countP (fun w => isCancelled w || isPending w) =
      ws.countP isCancelled + ws.countP isPending := by
  induction ws with
  | nil => rfl
  | cons w ws ih =>
    have excl := isPending_iff w
    simp only [List.countP_cons, ih]
    by_cases hp : isPending w
    · simp [hp, excl hp]; omega
    · simp [hp]; omega

theorem Wellformed.cancelled_rearm {t : Timers} (ok : t.Wellformed) :
    t.rearm.cancelled = t.cancelled + t.pending := by
  simp only [cancelled, pending, rearm, start, cancelWhere, List.countP_append, List.countP_map]
  rw [← countP_split]
  have same : t.waits.countP (isCancelled ∘ fun w =>
      if t.reconnectTimer == some w.kind then w.settle (.error .operationAborted) else w) =
      t.waits.countP fun w => isCancelled w || isPending w :=
    List.countP_congr fun w hw => by
      simp only [Function.comp_apply, (ok.cancelled_rearm_wait hw).1]
  rw [same]
  simp [isCancelled]

theorem Wellformed.pending_rearm {t : Timers} (ok : t.Wellformed) : t.rearm.pending = 1 := by
  simp only [pending, rearm, start, cancelWhere, List.countP_append, List.countP_map]
  have none_left : t.waits.countP (isPending ∘ fun w =>
      if t.reconnectTimer == some w.kind then w.settle (.error .operationAborted) else w) = 0 :=
    List.countP_eq_zero.mpr fun w hw => by
      simp only [Function.comp_apply, (ok.cancelled_rearm_wait hw).2]
      simp
  rw [none_left]
  rfl

theorem wellformed_rearm {t : Timers} (ok : t.Wellformed) : t.rearm.Wellformed := by
  have members : ∀ w ∈ t.rearm.waits, w = ⟨t.made, none⟩ ∨ ∃ w₀ ∈ t.waits, w =
      if t.reconnectTimer == some w₀.kind then w₀.settle (.error .operationAborted) else w₀ := by
    intro w hw
    simp only [rearm, start, cancelWhere, List.mem_append, List.mem_map, List.mem_singleton] at hw
    rcases hw with ⟨w₀, h₀, rfl⟩ | rfl
    · exact .inr ⟨w₀, h₀, rfl⟩
    · exact .inl rfl
  have older : ∀ w₀ ∈ t.waits, ∀ w, w =
      (if t.reconnectTimer == some w₀.kind then w₀.settle (.error .operationAborted) else w₀) →
      w.kind < t.made ∧ isPending w = false := by
    rintro w₀ h₀ w rfl
    refine ⟨?_, (ok.cancelled_rearm_wait h₀).2⟩
    have bound := ok.bound w₀ h₀
    split <;> exact bound
  refine ⟨?_, ?_, ?_, ?_, ok.pending_rearm.le⟩
  · intro timer h
    simp only [rearm, Option.some.injEq] at h ⊢
    omega
  · intro w hw
    rcases members w hw with rfl | ⟨w₀, h₀, h⟩
    · exact Nat.lt_succ_self _
    · exact Nat.lt_succ_of_lt (older w₀ h₀ w h).1
  · intro w hw hp
    rcases members w hw with rfl | ⟨w₀, h₀, h⟩
    · rfl
    · simp [(older w₀ h₀ w h).2] at hp
  · intro w hw hc
    rcases members w hw with rfl | ⟨w₀, h₀, h⟩
    · cases hc
    · have lower := (older w₀ h₀ w h).1
      simp only [rearm, ne_eq, Option.some.injEq]
      omega

theorem wellformed_expire {t : Timers} (ok : t.Wellformed) (i : Nat) :
    Wellformed { t with waits := finish i (.ok ()) t.waits } := by
  have fewer := countP_finish_le (p := isPending) (r := .ok ())
    (fun w h => by simp [isPending_settle] at h) i t.waits
  refine ⟨ok.last, ?_, ?_, ?_, fewer.trans ok.single⟩
  · exact forall_finish (P := fun w => w.kind < t.made) ok.bound (fun w h => h) i
  · exact forall_finish (P := fun w => isPending w → t.reconnectTimer = some w.kind)
      ok.current (fun w _ h => by simp [isPending_settle] at h) i
  · exact forall_finish (P := fun w => isCancelled w → t.reconnectTimer ≠ some w.kind)
      ok.spared (fun w h hc => h (by rwa [isCancelled_settle_ok] at hc)) i

theorem wellformed_erase {t : Timers} (ok : t.Wellformed) (i : Nat) :
    Wellformed { t with waits := t.waits.eraseIdx i } :=
  ⟨ok.last, forall_eraseIdx ok.bound i, forall_eraseIdx ok.current i,
    forall_eraseIdx ok.spared i,
    ((List.eraseIdx_sublist t.waits i).countP_le).trans ok.single⟩

/-- Cancelled waits are left, but the next one to be handled cancels nothing. -/
def Calm (t : Timers) : Prop := t.cancelled = 0 ∨ t.cancelled + t.pending ≤ 1

end Timers

namespace Client

def Event.IsTimer : Event → Prop
  | .expire _ | .runWait _ => True
  | _ => False

def Armed (timer : Nat) (c : Client) : Prop :=
  ∃ w ∈ c.timers.waits, w.kind = timer ∧ Timers.isCancelled w = false

/-- From `c` to `d` an expired timer has called `transport_->open()`, and the resolution that this
has started is running. -/
structure Opened (c d : Client) : Prop where
  opens : c.opens < d.opens
  started : c.transport.resolver.length < d.transport.resolver.length
  resolving : d.transport.resolver.getLast? = some ⟨d.transport.query, none⟩

/-- The timer that the last `reconnect_in` of `c` armed is, in `d`, still armed or has called
`transport_->open()`. -/
def StaysArmed (c d : Client) : Prop :=
  ∀ timer, c.timers.reconnectTimer = some timer → timer ∈ kinds c.timers.waits →
    Armed timer d ∨ Opened c d

/-- With timer events alone, `reconnect_in` is called finitely often, and the timer it armed last
stays armed until it expires and calls `transport_->open()`. -/
def NeverStarved (c : Client) : Prop :=
  ∀ f : Nat → Event, (∀ n, (f n).IsTimer) → ∃ n, ∀ m ≥ n,
    (trace step c f m).timers.made = (trace step c f n).timers.made ∧
      StaysArmed (trace step c f n) (trace step c f m)

@[simp] theorem timers_onCallback_onError (c : Client) (ec : ErrorCode) :
    (c.onCallback (.onError ec)).timers = c.timers.rearm := rfl

theorem after_timers_quiet (c : Client) {o : Outcome (ClientTransport Arrived)}
    (quiet : ∀ ec, .onError ec ∉ o.calls) : (c.after o).timers = c.timers := by
  have folded : ∀ (calls : List Callback) (d : Client), (∀ ec, .onError ec ∉ calls) →
      (calls.foldl onCallback d).timers = d.timers := by
    intro calls
    induction calls with
    | nil => exact fun _ _ => rfl
    | cons call calls ih =>
      intro d quiet
      rw [List.foldl_cons, ih _ fun ec h => quiet ec (by simp [h])]
      cases call with
      | onError ec => exact absurd (by simp) (quiet ec)
      | onConnected => rfl
      | onDisconnected => rfl
  exact folded o.calls _ quiet

theorem update_timers (c : Client) : c.update.timers = c.timers := by
  unfold update
  split
  · split <;> rfl
  · rfl

theorem read_timers (c : Client) : c.read.timers = c.timers := by
  unfold read
  split
  · rfl
  · split <;> rfl
  · split <;> rfl

/-- The steps that deliver an error of the transport. -/
def DeliversError (c : Client) (e : Event) : Prop :=
  (∃ i op ec, e = .run i ∧ ready c.transport.socket.ops i = some (op, .error ec)) ∨
    ∃ i query ec, e = .runResolve i ∧ ready c.transport.resolver i = some (query, .error ec)

theorem timers_step (c : Client) (e : Event) :
    (c.step e).timers = c.timers ∨
      (c.DeliversError e ∧ (c.step e).timers = c.timers.rearm) ∨
      (∃ i, (c.step e).timers = { c.timers with waits := finish i (.ok ()) c.timers.waits }) ∨
      ∃ i timer r, ready c.timers.waits i = some (timer, r) ∧
        let erased := { c.timers with waits := c.timers.waits.eraseIdx i }
        (c.step e).timers = if r = .ok () then erased else erased.rearm := by
  by_cases dead : c.fault ≠ none
  · rw [step_dead dead]
    exact .inl rfl
  rw [step_running (not_not.mp dead)]
  cases e with
  | connectTo query =>
    refine .inl (after_timers_quiet c ?_)
    simp [ClientTransport.connectTo, ClientTransport.close, ClientTransport.base,
      Transport.close]
  | update => exact .inl (update_timers c)
  | read => exact .inl (read_timers c)
  | run i =>
    cases h : ready c.transport.socket.ops i with
    | none => exact .inl (by simp only [act, h])
    | some found =>
      obtain ⟨op, r⟩ := found
      simp only [act, h]
      cases r with
      | error ec =>
        rw [ClientTransport.handle_error]
        exact .inr (.inl ⟨.inl ⟨i, op, ec, rfl, h⟩, rfl⟩)
      | ok bytes =>
        refine .inl (after_timers_quiet c fun ec called => ?_)
        cases ClientTransport.handle_ok_calls _ _ _ _ called
  | runResolve i =>
    cases h : ready c.transport.resolver i with
    | none => exact .inl (by simp only [act, h])
    | some found =>
      obtain ⟨query, r⟩ := found
      simp only [act, h]
      cases r with
      | error ec => exact .inr (.inl ⟨.inr ⟨i, query, ec, rfl, h⟩, rfl⟩)
      | ok _ => exact .inl rfl
  | expire i => exact .inr (.inr (.inl ⟨i, rfl⟩))
  | runWait i =>
    cases h : ready c.timers.waits i with
    | none => exact .inl (by simp only [act, h])
    | some found =>
      obtain ⟨timer, r⟩ := found
      refine .inr (.inr (.inr ⟨i, timer, r, h, ?_⟩))
      simp only [act, h]
      cases r with
      | error ec => rfl
      | ok _ => rfl
  | _ => exact .inl rfl

theorem wellformed_step (c : Client) (e : Event) (ok : c.timers.Wellformed) :
    (c.step e).timers.Wellformed := by
  rcases c.timers_step e with same | ⟨-, rearmed⟩ | ⟨i, expired⟩ | ⟨i, timer, r, -, handled⟩
  · rwa [same]
  · rw [rearmed]
    exact Timers.wellformed_rearm ok
  · rw [expired]
    exact Timers.wellformed_expire ok i
  · rw [handled]
    have erased := Timers.wellformed_erase ok i
    split
    · exact erased
    · exact Timers.wellformed_rearm erased

theorem wellformed_run (query : Query) (es : List Event) :
    (run step (create query) es).timers.Wellformed :=
  run_invariant wellformed_step
    ⟨by simp [create], by simp [create], by simp [create], by simp [create],
      by simp [create, Timers.pending]⟩ es

structure Quiet (c d : Client) : Prop where
  made : d.timers.made = c.timers.made
  cancelled : d.timers.cancelled = c.timers.cancelled
  pending : d.timers.pending ≤ c.timers.pending
  moved : d.transport = c.transport ∧ d.opens = c.opens ∨ Opened c d
  armed : ∀ timer, Armed timer c → Armed timer d ∨ Opened c d

structure Rearms (c d : Client) : Prop where
  found : 1 ≤ c.timers.cancelled
  made : d.timers.made = c.timers.made + 1
  cancelled : d.timers.cancelled + 1 = c.timers.cancelled + c.timers.pending
  pending : d.timers.pending = 1

theorem expire_quiet {c : Client} (running : c.fault = none) (i : Nat) :
    Quiet c (c.step (.expire i)) := by
  have stepped : c.step (.expire i) =
      { c with timers := { c.timers with waits := finish i (.ok ()) c.timers.waits } } := by
    simp [step, running, act]
  rw [stepped]
  refine ⟨rfl, countP_finish Timers.isCancelled_settle_ok i _,
    countP_finish_le (fun w h => by simp [Timers.isPending_settle] at h) i _, .inl ⟨rfl, rfl⟩, ?_⟩
  rintro timer ⟨w, hw, hk, hc⟩
  obtain ⟨w', hw', same | settled⟩ := exists_finish hw i (.ok ())
  · exact .inl ⟨w', hw', by rw [same, hk], by rw [same, hc]⟩
  · refine .inl ⟨w', hw', by rw [settled, settle_kind, hk], ?_⟩
    rw [settled, Timers.isCancelled_settle_ok, hc]

theorem runWait_ok_quiet {c : Client} (running : c.fault = none) {i timer : Nat}
    (h : ready c.timers.waits i = some (timer, .ok ())) : Quiet c (c.step (.runWait i)) := by
  have stepped : c.step (.runWait i) =
      onWait { c with timers := { c.timers with waits := c.timers.waits.eraseIdx i } }
        (.ok ()) := by
    simp [step, running, act, h]
  rw [stepped]
  have counts := countP_eraseIdx h
  have hc := counts Timers.isCancelled
  have hp := counts Timers.isPending
  have opened : Opened c (onWait { c with timers :=
      { c.timers with waits := c.timers.waits.eraseIdx i } } (.ok ())) := by
    refine ⟨Nat.lt_succ_self _, ?_, ?_⟩
    · simp [onWait, ClientTransport.open', start, Proactor.cancel]
    · simp [onWait, ClientTransport.open', start]
  exact ⟨rfl, hc, Nat.le_of_eq hp, .inr opened, fun _ _ => .inr opened⟩

theorem runWait_error_rearms {c : Client} (running : c.fault = none)
    (ok : c.timers.Wellformed) {i timer : Nat} {ec : ErrorCode}
    (h : ready c.timers.waits i = some (timer, .error ec)) :
    Rearms c (c.step (.runWait i)) := by
  let erased : Timers := { c.timers with waits := c.timers.waits.eraseIdx i }
  have stepped : (c.step (.runWait i)).timers = erased.rearm := by
    simp [step, running, act, h, onWait, erased]
  have wf : erased.Wellformed := Timers.wellformed_erase ok i
  have counts := countP_eraseIdx h
  have hc : erased.cancelled + 1 = c.timers.cancelled := counts Timers.isCancelled
  have hp : erased.pending = c.timers.pending := counts Timers.isPending
  refine ⟨by omega, by rw [stepped]; rfl, ?_, by rw [stepped]; exact wf.pending_rearm⟩
  rw [stepped, wf.cancelled_rearm]
  omega

theorem quiet_refl (c : Client) : Quiet c c :=
  ⟨rfl, rfl, le_rfl, .inl ⟨rfl, rfl⟩, fun _ h => .inl h⟩

theorem Opened.quiet {c d f : Client} (h : Opened c d) (later : Quiet d f) : Opened c f := by
  rcases later.moved with ⟨same, opens⟩ | again
  · exact ⟨opens ▸ h.opens, same ▸ h.started, same ▸ h.resolving⟩
  · exact ⟨h.opens.trans again.opens, h.started.trans again.started, again.resolving⟩

theorem Quiet.opened {c d f : Client} (h : Quiet c d) (later : Opened d f) : Opened c f := by
  rcases h.moved with ⟨same, opens⟩ | before
  · exact ⟨opens ▸ later.opens, same ▸ later.started, later.resolving⟩
  · exact ⟨before.opens.trans later.opens, before.started.trans later.started, later.resolving⟩

theorem Quiet.trans {c d f : Client} (h : Quiet c d) (h' : Quiet d f) : Quiet c f := by
  refine ⟨h'.made.trans h.made, h'.cancelled.trans h.cancelled, h'.pending.trans h.pending, ?_,
    fun timer armed => ?_⟩
  · rcases h'.moved with ⟨same, opens⟩ | opened
    · rcases h.moved with ⟨same', opens'⟩ | opened
      · exact .inl ⟨same.trans same', opens.trans opens'⟩
      · exact .inr (opened.quiet h')
    · exact .inr (h.opened opened)
  · rcases h.armed timer armed with still | opened
    · exact (h'.armed timer still).imp_right h.opened
    · exact .inr (opened.quiet h')

theorem timer_step {c : Client} (running : c.fault = none) (ok : c.timers.Wellformed)
    {e : Event} (h : e.IsTimer) :
    (c.step e).fault = none ∧ (Quiet c (c.step e) ∨ Rearms c (c.step e)) := by
  cases e with
  | expire i => exact ⟨by simp [step, running, act], .inl (expire_quiet running i)⟩
  | runWait i =>
    cases hr : ready c.timers.waits i with
    | none =>
      have stays : c.step (.runWait i) = c := by simp [step, running, act, hr]
      rw [stays]
      exact ⟨running, .inl (quiet_refl c)⟩
    | some found =>
      obtain ⟨timer, r⟩ := found
      cases r with
      | error ec =>
        refine ⟨?_, .inr (runWait_error_rearms running ok hr)⟩
        simp [step, running, act, hr, onWait, onCallback, onError, reconnectIn]
      | ok u => exact ⟨by simp [step, running, act, hr, onWait], .inl (runWait_ok_quiet running hr)⟩
  | _ => exact h.elim

theorem staysArmed_of_made_eq {c : Client} (running : c.fault = none)
    (ok : c.timers.Wellformed) {es : List Event} (timers : ∀ e ∈ es, e.IsTimer)
    (same : (run step c es).timers.made = c.timers.made) : StaysArmed c (run step c es) := by
  have grows : ∀ (es : List Event) (c : Client), c.fault = none → c.timers.Wellformed →
      (∀ e ∈ es, e.IsTimer) → c.timers.made ≤ (run step c es).timers.made ∧
      ((run step c es).timers.made = c.timers.made → Quiet c (run step c es)) := by
    intro es
    induction es with
    | nil => exact fun c _ _ _ => ⟨le_rfl, fun _ => quiet_refl c⟩
    | cons e es ih =>
      intro c running ok timers
      obtain ⟨running', moved⟩ := timer_step running ok (timers e (by simp))
      obtain ⟨more, kept⟩ := ih (c.step e) running' (wellformed_step c e ok)
        fun e' he => timers e' (by simp [he])
      rw [run_cons]
      rcases moved with quiet | rearms
      · exact ⟨quiet.made ▸ more, fun same => quiet.trans (kept (same.trans quiet.made.symm))⟩
      · have made := rearms.made
        exact ⟨by omega, fun same => by omega⟩
  intro timer current outstanding
  obtain ⟨w, hw, hk⟩ := List.mem_map.mp outstanding
  refine ((grows es c running ok timers).2 same).armed timer ⟨w, hw, hk, ?_⟩
  by_contra hc
  exact ok.spared w hw (by simpa using hc) (hk ▸ current)

theorem calm_step {c : Client} (running : c.fault = none) (ok : c.timers.Wellformed)
    (calm : c.timers.Calm) {e : Event} (h : e.IsTimer) :
    (c.step e).timers.Calm ∧
      ((c.step e).timers.made = c.timers.made ∨ (c.step e).timers.cancelled = 0) ∧
      (c.timers.cancelled = 0 →
        (c.step e).timers.cancelled = 0 ∧ (c.step e).timers.made = c.timers.made) := by
  rcases (timer_step running ok h).2 with quiet | rearms
  · have hc := quiet.cancelled
    have hp := quiet.pending
    refine ⟨?_, .inl quiet.made, fun h0 => ⟨by omega, quiet.made⟩⟩
    rcases calm with h0 | h1
    · exact .inl (by omega)
    · exact .inr (by omega)
  · have hf := rearms.found
    have hc := rearms.cancelled
    have h1 : c.timers.cancelled + c.timers.pending ≤ 1 := by
      rcases calm with h0 | h1
      · omega
      · exact h1
    exact ⟨.inl (by omega), .inr (by omega), fun h0 => by omega⟩

theorem Calm.neverStarved {c : Client} (running : c.fault = none) (ok : c.timers.Wellformed)
    (calm : c.timers.Calm) : NeverStarved c := by
  intro f timers
  have along : ∀ n, (trace step c f n).fault = none ∧ (trace step c f n).timers.Wellformed ∧
      (trace step c f n).timers.Calm := by
    intro n
    induction n with
    | zero => exact ⟨running, ok, calm⟩
    | succ n ih =>
      obtain ⟨running, ok, calm⟩ := ih
      exact ⟨(timer_step running ok (timers n)).1, wellformed_step _ _ ok,
        (calm_step running ok calm (timers n)).1⟩
  have settles : ∃ n, ∀ m, (trace step c f (n + m)).timers.made =
      (trace step c f n).timers.made := by
    by_cases h : ∃ n, (trace step c f n).timers.cancelled = 0
    · -- once no cancelled wait is left, none appears
      obtain ⟨n, hn⟩ := h
      have still : ∀ m, (trace step c f (n + m)).timers.cancelled = 0 ∧
          (trace step c f (n + m)).timers.made = (trace step c f n).timers.made := by
        intro m
        induction m with
        | zero => exact ⟨hn, rfl⟩
        | succ m ih =>
          obtain ⟨running, ok, calm⟩ := along (n + m)
          obtain ⟨zero, made⟩ := (calm_step running ok calm (timers (n + m))).2.2 ih.1
          exact ⟨zero, made.trans ih.2⟩
      exact ⟨n, fun m => (still m).2⟩
    · -- otherwise its handler never runs
      push Not at h
      refine ⟨0, fun m => ?_⟩
      rw [Nat.zero_add]
      induction m with
      | zero => rfl
      | succ m ih =>
        obtain ⟨running, ok, calm⟩ := along m
        rcases (calm_step running ok calm (timers m)).2.1 with made | zero
        · exact Eq.trans made ih
        · exact absurd zero (h (m + 1))
  obtain ⟨n, constant⟩ := settles
  refine ⟨n, fun m hm => ?_⟩
  obtain ⟨k, rfl⟩ := Nat.exists_eq_add_of_le hm
  refine ⟨constant k, ?_⟩
  obtain ⟨running, ok, -⟩ := along n
  have later := trace_add step c f n k
  rw [later]
  refine staysArmed_of_made_eq running ok ?_ (by rw [← later]; exact constant k)
  intro e he
  obtain ⟨j, -, rfl⟩ := List.mem_map.mp he
  exact timers _

/-- A cancelled wait next to another one that will be cancelled is there again after its handler
has run. -/
theorem storm_step {c : Client} (running : c.fault = none) (ok : c.timers.Wellformed)
    (storm : ¬ c.timers.Calm) :
    ∃ e : Event, e.IsTimer ∧ ¬ (c.step e).timers.Calm ∧
      c.timers.made < (c.step e).timers.made := by
  simp only [Timers.Calm, not_or] at storm
  obtain ⟨hc, hcp⟩ := storm
  obtain ⟨w, hw, cancelled⟩ := List.countP_pos_iff.mp (Nat.pos_of_ne_zero hc)
  obtain ⟨timer, result⟩ := w
  match result, cancelled with
  | some (.error ec), _ =>
    obtain ⟨i, hi⟩ := exists_ready hw
    have rearms := runWait_error_rearms running ok hi
    have made := rearms.made
    have counts := rearms.cancelled
    have one := rearms.pending
    refine ⟨.runWait i, trivial, ?_, by omega⟩
    simp only [Timers.Calm, not_or]
    omega

theorem storm_starves {c : Client} (running : c.fault = none) (ok : c.timers.Wellformed)
    (storm : ¬ c.timers.Calm) : ¬ NeverStarved c := by
  intro settled
  let Storm : Client → Prop := fun c =>
    c.fault = none ∧ c.timers.Wellformed ∧ ¬ c.timers.Calm
  have next : ∀ c, Storm c → ∃ e : Event, e.IsTimer ∧ Storm (c.step e) ∧
      c.timers.made < (c.step e).timers.made := by
    intro c ⟨running, ok, storm⟩
    obtain ⟨e, he, again, more⟩ := storm_step running ok storm
    exact ⟨e, he, ⟨(timer_step running ok he).1, wellformed_step c e ok, again⟩, more⟩
  have start : Storm c := ⟨running, ok, storm⟩
  obtain ⟨f, timers, endless⟩ := exists_endless (μ := fun c => c.timers.made) next start
  obtain ⟨n, constant⟩ := settled f timers
  have more := (endless n).2
  have same := (constant (n + 1) (Nat.le_succ n)).1
  omega

def ErrorsSpaced (c : Client) (e : Event) : Prop := c.DeliversError e → c.timers.pending = 0

theorem spaced_step (c : Client) (e : Event)
    (h : c.timers.Wellformed ∧ c.timers.cancelled = 0) (spaced : c.ErrorsSpaced e) :
    (c.step e).timers.Wellformed ∧ (c.step e).timers.cancelled = 0 := by
  obtain ⟨ok, none_left⟩ := h
  refine ⟨wellformed_step c e ok, ?_⟩
  rcases c.timers_step e with same | ⟨error, rearmed⟩ | ⟨i, expired⟩ |
    ⟨i, timer, r, found, handled⟩
  · rwa [same]
  · have idle := spaced error
    rw [rearmed, ok.cancelled_rearm]
    omega
  · rw [expired]
    exact (countP_finish Timers.isCancelled_settle_ok i _).trans none_left
  · rw [handled]
    have fewer := countP_eraseIdx found Timers.isCancelled
    change c.timers.waits.countP Timers.isCancelled = 0 at none_left
    cases r with
    | error ec =>
      -- a cancelled wait would have been left before
      simp [Timers.isCancelled] at fewer
      omega
    | ok _ => exact (Nat.add_eq_zero_iff.mp (fewer.trans none_left)).1

/-- In a running client the pending reconnect is safe from the cancelled ones exactly when no
cancelled wait is left to complete, or a last one is and the timer itself is not pending. It is
so throughout a run whose errors all come while no reconnect is pending. -/
theorem neverStarved_iff_calm (query : Query) (es : List Event)
    (running : (run step (create query) es).fault = none) :
    (NeverStarved (run step (create query) es) ↔ (run step (create query) es).timers.Calm) ∧
      (Along step ErrorsSpaced (create query) es →
        NeverStarved (run step (create query) es)) := by
  have ok := wellformed_run query es
  have calm : (run step (create query) es).timers.Calm →
      NeverStarved (run step (create query) es) := Calm.neverStarved running ok
  refine ⟨⟨fun settled => ?_, calm⟩, fun spaced => calm (.inl ?_)⟩
  · by_contra storm
    exact storm_starves running ok storm settled
  · exact (run_invariant_along spaced_step ⟨wellformed_run query [], rfl⟩ spaced).2

def home : Query := ⟨"127.0.0.1", "1528"⟩

def connecting : List Event := [.resolved 0 (.ok ()), .runResolve 0, .finish 0 (.ok []), .run 0]

theorem neverStarved_peer_gone :
    let c := run step (create home) (connecting ++ [.finish 0 (.error .eof), .run 0])
    c.calls = [.onConnected, .onError .eof, .onDisconnected] ∧ c.timers.pending = 1 ∧
      NeverStarved c := by
  have spaced : Along step ErrorsSpaced (create home)
      (connecting ++ [.finish 0 (.error .eof), .run 0]) :=
    ⟨fun _ => rfl, fun _ => rfl, fun _ => rfl, fun _ => rfl, fun _ => rfl, fun _ => rfl, trivial⟩
  exact ⟨rfl, rfl, (neverStarved_iff_calm home _ rfl).2 spaced⟩

/-- The peer closes while a write is in flight: its receive error and the abort of the write are
two errors in one delay. -/
theorem two_errors_starve :
    let c := run step (create home)
      (connecting ++ [.send [0, 0, 0, 0], .finish 0 (.error .eof), .run 0, .run 0])
    c.fault = none ∧ ¬ NeverStarved c := by
  refine ⟨rfl, storm_starves rfl (wellformed_run home _) ?_⟩
  change ¬ (1 = 0 ∨ 1 + 1 ≤ 1)
  decide

end Client

end ThriftAsio
