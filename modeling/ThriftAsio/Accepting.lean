import ThriftAsio.BadFrames

/-! The accept loop. The handler of an accept starts the next one, but only in the branch for
success; after an error that is not due to `close()` nobody can connect any more. What was
accepted is registered and read from once, whatever else happens. -/

namespace ThriftAsio
open Proactor Asio Machine

theorem Chains.Step.stays_empty {T : Thrift} {i : Option Chains.Input} {a b : Chains}
    (h : Chains.Step T i a b) {q : Protocol} {l : Link} (link : a.links q = some l)
    (empty : l.reads = []) : ∃ l', b.links q = some l' ∧ l'.reads = [] := by
  have touched : ∀ p l', (∀ l₀, a.links p = some l₀ → l₀.reads = [] → l'.reads = []) →
      ∃ k, (a.setLink p l').links q = some k ∧ k.reads = [] := by
    intro p l' stays
    by_cases same : q = p
    · subst same
      exact ⟨l', a.setLink_self q l', stays l link empty⟩
    · exact ⟨l, by simpa [Chains.setLink, Function.update_of_ne same] using link, empty⟩
  have busy : ∀ {p l₀ o}, a.links p = some l₀ → l₀.reads = [o] →
      ∀ l₁, a.links p = some l₁ → l₁.reads ≠ [] := by
    intro p l₀ o h₀ single l₁ h₁ none
    obtain rfl := Option.some.inj (h₀.symm.trans h₁)
    rw [single] at none
    cases none
  cases h with
  | stutter => exact ⟨l, link, empty⟩
  | accepted fresh made => exact touched _ _ fun l₀ known => by simp [fresh] at known
  | arrived known bytes =>
    refine touched _ _ fun l₀ h₀ none => ?_
    obtain rfl := Option.some.inj (known.symm.trans h₀)
    exact none
  | completed known running enough =>
    exact touched _ _ fun l₁ h₁ none => absurd none (busy known running l₁ h₁)
  | failed known ec =>
    refine touched _ _ fun l₀ h₀ none => ?_
    obtain rfl := Option.some.inj (known.symm.trans h₀)
    simp [none, cancel]
  | sized known read next =>
    exact touched _ _ fun l₁ h₁ none => absurd none (busy known read l₁ h₁)
  | served known read decoded served next =>
    exact touched _ _ fun l₁ h₁ none => absurd none (busy known read l₁ h₁)
  | disconnected known failed erased => exact touched _ _ fun _ _ _ => rfl

namespace Server

def accepts (s : Server) (e : Event) : List Protocol :=
  if s.fault.isSome then []
  else
    match e with
    | .runAccept i p =>
      match ready s.acceptor.ops i, s.connections p with
      | some (_, .ok _), none => [p]
      | _, _ => []
    | _ => []

def reads (s : Server) (p : Protocol) : Ops ReadOp (Completion UInt8) :=
  (s.connections p).elim [] Connection.reads

/-- The reads that the step starts on a connection on which none is outstanding. -/
def chainStarts (T : Thrift) (p : Protocol) (s : Server) (e : Event) : List ReadOp :=
  if (s.reads p).isEmpty then kinds ((s.step T e).reads p) else []

def Armed (s : Server) : Prop := s.acceptor.isOpen = true → s.acceptor.outstanding = [()]

/-- What a server that keeps accepting has done after these events. -/
structure KeepsAccepting (T : Thrift) (es : List Event) : Prop where
  armed : (run (step T) create es).Armed
  distinct : (collect (step T) accepts create es).Nodup
  registered : ∀ p ∈ collect (step T) accepts create es,
    (run (step T) create es).log.countP (Call.connects p) = 1
  started : ∀ p ∈ collect (step T) accepts create es,
    collect (step T) (chainStarts T p) create es = [.frameSize]

def FailsAccept (s : Server) (e : Event) : Prop :=
  s.fault = none ∧ ∃ i p ec, e = .runAccept i p ∧ ready s.acceptor.ops i = some ((), .error ec)

/-- An accept only fails because the acceptor was closed. -/
def FailsClosed (s : Server) (e : Event) : Prop := s.FailsAccept e → s.acceptor.isOpen = false

structure Apart (s s' : Server) : Prop where
  isOpen : s'.acceptor.isOpen = true → s.acceptor.isOpen = true
  outstanding : s'.acceptor.outstanding = s.acceptor.outstanding
  known : ∀ p, (s'.connections p).isSome = (s.connections p).isSome
  connects : ∀ p, s'.log.countP (Call.connects p) = s.log.countP (Call.connects p)

section Apart

variable {T : Thrift} {s s' s'' : Server}

theorem Apart.refl (s : Server) : Apart s s := ⟨id, rfl, fun _ => rfl, fun _ => rfl⟩

theorem Apart.trans (h : Apart s s') (h' : Apart s' s'') : Apart s s'' :=
  ⟨h.isOpen ∘ h'.isOpen, h'.outstanding.trans h.outstanding,
    fun p => (h'.known p).trans (h.known p), fun p => (h'.connects p).trans (h.connects p)⟩

theorem apart_onConnection (s : Server) (p : Protocol) (f : Connection → Connection) :
    Apart s (s.onConnection p f) := by
  refine ⟨id, rfl, fun q => ?_, fun _ => rfl⟩
  by_cases same : q = p
  · simp [onConnection, same]
  · simp [onConnection, same]

theorem apart_log (s : Server) (h : Handler) (f : Option Fault) (calls : List Call)
    (others : ∀ p, calls.countP (Call.connects p) = 0) :
    Apart s { s with handler := h, log := s.log ++ calls, fault := f } := by
  refine ⟨id, rfl, fun _ => rfl, fun p => ?_⟩
  rw [List.countP_append, others p, Nat.add_zero]

theorem apart_send (s : Server) (m : Protocol × OutMessage) : Apart s (send T s m) :=
  (apart_onConnection s m.1 _).trans (apart_log _ _ _ _ fun _ => rfl)

theorem apart_sends (s : Server) (msgs : List (Protocol × OutMessage)) :
    Apart s (msgs.foldl (send T) s) := by
  induction msgs generalizing s with
  | nil => exact .refl s
  | cons m msgs ih => exact (apart_send s m).trans (ih _)

theorem apart_process (s : Server) (p : Protocol) (payload : List UInt8) :
    Apart s (process T s p payload) := by
  have called := fun h f =>
    apart_log s h f [.process p payload s.handler.currentClient] fun _ => rfl
  unfold process
  dsimp only
  split
  · exact called _ _
  · split
    · exact called _ _
    · exact ((called _ _).trans (apart_sends _ _)).trans (apart_log _ _ _ _ fun _ => rfl)

theorem apart_onFrameData (s : Server) (p : Protocol) (payload : List UInt8) :
    Apart s (s.onFrameData T p payload) := by
  unfold onFrameData
  split
  · exact ⟨id, rfl, fun _ => rfl, fun _ => rfl⟩
  · rename_i h _
    have before := apart_log s h s.fault [.beforeProcess p] fun _ => rfl
    have processed := before.trans (apart_process (T := T) _ p payload)
    dsimp only
    split
    · exact processed
    · exact (processed.trans (apart_log _ _ _ _ fun _ => rfl)).trans (apart_onConnection _ _ _)

theorem apart_onDisconnected (s : Server) (p : Protocol) : Apart s (s.onDisconnected p) := by
  unfold onDisconnected
  split
  · exact ⟨id, rfl, fun _ => rfl, fun _ => rfl⟩
  · exact apart_log _ _ _ _ fun _ => rfl

theorem apart_handle (s : Server) (p : Protocol) (t : Transport ReadOp UInt8)
    (op : SocketOp ReadOp) (r : Completion UInt8) : Apart s (s.handle T p t op r) := by
  have taken := fun t => apart_onConnection s p (·.onTransport fun _ => t)
  unfold handle
  dsimp only
  split
  · exact (taken t).trans (apart_onDisconnected _ _)
  · exact (taken t).trans (apart_onConnection _ _ _)
  · exact (taken t).trans (apart_onFrameData _ _ _)
  · obtain ⟨isOpen, outstanding, known, connects⟩ := taken (t.handle op r).state
    exact ⟨isOpen, outstanding, known, connects⟩

end Apart

section Step

variable {T : Thrift} {s : Server}

theorem apart_step (s : Server) {e : Event} (other : ∀ i p, e ≠ .runAccept i p) :
    Apart s (s.step T e) := by
  by_cases stopped : s.fault ≠ none
  · rw [step_stopped stopped]
    exact .refl s
  rw [step_running (not_not.mp stopped)]
  cases e with
  | finishAccept i r =>
    exact ⟨id, Socket.outstanding_finish _ _ _, fun _ => rfl, fun _ => rfl⟩
  | runAccept i p => exact absurd rfl (other i p)
  | stopListening =>
    exact ⟨by simp [act], Socket.outstanding_close _, fun _ => rfl, fun _ => rfl⟩
  | arrive p bytes => exact apart_onConnection s p _
  | finish p i r => exact apart_onConnection s p _
  | run p i =>
    simp only [act]
    split
    · exact .refl s
    · split
      · exact .refl s
      · exact apart_handle s p _ _ _
  | write p frame => exact apart_onConnection s p _

theorem accepts_other (s : Server) {e : Event} (other : ∀ i p, e ≠ .runAccept i p) :
    s.accepts e = [] := by
  cases e with
  | runAccept i p => exact absurd rfl (other i p)
  | _ => simp [accepts]

theorem Valid.step_accepted (valid : s.Valid) {i : Nat} {r : List Unit}
    (finished : ready s.acceptor.ops i = some ((), .ok r)) {p : Protocol}
    (fresh : s.connections p = none) :
    (s.step T (.runAccept i p)).acceptor = (s.acceptor.take i).start () ∧
      (s.step T (.runAccept i p)).connections =
        Function.update s.connections p (some (Connection.create.startRead .frameSize)) ∧
      (s.step T (.runAccept i p)).log = s.log ++ [.connected p s.handler.made] := by
  have absent : p ∉ s.handler.clients :=
    fun known => valid.consistent.known p known (by simp [chains, fresh])
  obtain ⟨h, made⟩ := Handler.onClientConnected_ok absent
  have running := valid.sound.running
  rw [step_running running]
  simp only [act, finished, fresh, onAccept, made]
  rw [if_neg (by simp [readFrameSize, onConnection, running])]
  refine ⟨rfl, ?_, rfl⟩
  simp [startAccept, readFrameSize, onConnection, Function.update_idem]

theorem failsAccept_runAccept {i : Nat} {p : Protocol} : s.FailsAccept (.runAccept i p) ↔
    s.fault = none ∧ ∃ ec, ready s.acceptor.ops i = some ((), .error ec) := by
  simp [FailsAccept]

theorem Valid.step_cases (valid : s.Valid) (e : Event) :
    (∃ i p r, e = .runAccept i p ∧ ready s.acceptor.ops i = some ((), .ok r) ∧
      s.connections p = none) ∨
    (∃ i p ec, e = .runAccept i p ∧ ready s.acceptor.ops i = some ((), .error ec) ∧
      s.step T e = { s with acceptor := s.acceptor.take i }) ∨
    (¬ s.FailsAccept e ∧ s.accepts e = [] ∧ Apart s (s.step T e)) := by
  have running := valid.sound.running
  by_cases other : ∀ i p, e ≠ .runAccept i p
  · refine .inr (.inr ⟨?_, accepts_other s other, apart_step s other⟩)
    rintro ⟨-, i, p, ec, same, -⟩
    exact other i p same
  simp only [not_forall, not_not] at other
  obtain ⟨i, p, rfl⟩ := other
  cases finished : ready s.acceptor.ops i with
  | none =>
    refine .inr (.inr ⟨by simp [failsAccept_runAccept, finished],
      by simp [accepts, finished], ?_⟩)
    rw [step_running running]
    simp only [act, finished]
    exact .refl s
  | some found =>
    obtain ⟨⟨⟩, ec | r⟩ := found
    · refine .inr (.inl ⟨i, p, ec, rfl, finished, ?_⟩)
      rw [step_running running]
      simp only [act, finished]
    · cases known : s.connections p with
      | none => exact .inl ⟨i, p, r, rfl, finished, known⟩
      | some c =>
        refine .inr (.inr ⟨by simp [failsAccept_runAccept, finished],
          by simp [accepts, finished, known], ?_⟩)
        rw [step_running running]
        simp only [act, finished, known]
        exact .refl s

theorem reads_eq_links (s : Server) (p : Protocol) :
    s.reads p = (s.chains.links p).elim [] Link.reads := by
  cases h : s.connections p <;> simp [reads, chains, Connection.link, h]

theorem Valid.reads_step (valid : s.Valid) {p : Protocol} {c : Connection}
    (known : s.connections p = some c) (empty : c.reads = []) (e : Event) :
    (s.step T e).reads p = [] := by
  by_cases returns : s.Returns T e
  · obtain ⟨l, link, none⟩ := (step_chains valid.sound valid.consistent returns).2.stays_empty
      (links_eq_some.mpr ⟨c, known, rfl⟩) empty
    rw [reads_eq_links, link]
    exact none
  · obtain ⟨q, i, payload, rfl, h, broken⟩ := not_returns returns
    obtain ⟨_, _, d, n, ⟨⟩, hd, finished⟩ := payload?_eq_some h
    obtain ⟨d', handler, current, -, threw⟩ := valid.threw h broken
    have other : p ≠ q := by
      rintro rfl
      obtain rfl := Option.some.inj (known.symm.trans hd)
      have outstanding := (outstanding_read hd finished).2
      rw [show c.link.reads = [] from empty] at outstanding
      cases outstanding
    rw [threw, reads]
    simp only [onConnection, Function.update_of_ne other, known]
    exact empty

theorem Valid.chainStarts_nil (valid : s.Valid) {e : Event} {p : Protocol}
    (same : ((s.step T e).connections p).isSome = (s.connections p).isSome) :
    chainStarts T p s e = [] := by
  have stays : s.reads p = [] → (s.step T e).reads p = [] := by
    intro empty
    cases known : s.connections p with
    | none =>
      rw [known, Option.isSome_none, Option.isSome_eq_false_iff, Option.isNone_iff_eq_none] at same
      rw [reads, same]
      rfl
    | some c =>
      rw [reads, known] at empty
      exact valid.reads_step known empty e
  unfold chainStarts
  split
  · rename_i before
    rw [stays (List.isEmpty_iff.mp before), kinds_nil]
  · rfl

theorem Valid.chainStarts_accepted (valid : s.Valid) {i : Nat} {r : List Unit}
    (finished : ready s.acceptor.ops i = some ((), .ok r)) {p : Protocol}
    (fresh : s.connections p = none) :
    chainStarts T p s (.runAccept i p) = [.frameSize] := by
  obtain ⟨-, connections, -⟩ := valid.step_accepted (T := T) finished fresh
  have idle : s.reads p = [] := by
    rw [reads, fresh]
    rfl
  rw [chainStarts, if_pos (List.isEmpty_iff.mpr idle), reads, connections, Function.update_self]
  rfl

structure Tallied (T : Thrift) (s : Server) (e : Event) (p : Protocol) : Prop where
  known : ((s.step T e).connections p).isSome.toNat =
    (s.connections p).isSome.toNat + (s.accepts e).count p
  connects : (s.step T e).log.countP (Call.connects p) =
    s.log.countP (Call.connects p) + (s.accepts e).count p
  starts : chainStarts T p s e = List.replicate ((s.accepts e).count p) .frameSize

theorem Valid.tallied_nothing (valid : s.Valid) {e : Event} (nothing : s.accepts e = [])
    {p : Protocol} (known : ((s.step T e).connections p).isSome = (s.connections p).isSome)
    (connects : (s.step T e).log.countP (Call.connects p) = s.log.countP (Call.connects p)) :
    Tallied T s e p := by
  refine ⟨?_, ?_, ?_⟩
  · rw [known, nothing, List.count_nil, Nat.add_zero]
  · rw [connects, nothing, List.count_nil, Nat.add_zero]
  · rw [valid.chainStarts_nil known, nothing]
    rfl

theorem Valid.tallied_accepted (valid : s.Valid) {i : Nat} {r : List Unit}
    (finished : ready s.acceptor.ops i = some ((), .ok r)) {p : Protocol}
    (fresh : s.connections p = none) (q : Protocol) : Tallied T s (.runAccept i p) q := by
  obtain ⟨-, connections, log⟩ := valid.step_accepted (T := T) finished fresh
  have new : s.accepts (.runAccept i p) = [p] := by
    simp [accepts, valid.sound.running, finished, fresh]
  by_cases same : p = q
  · subst same
    refine ⟨?_, ?_, ?_⟩
    · simp [connections, fresh, new]
    · simp [log, new, Call.connects, List.countP_append]
    · rw [valid.chainStarts_accepted finished fresh, new, List.count_singleton_self]
      rfl
  · have known : (s.step T (.runAccept i p)).connections q = s.connections q := by
      rw [connections, Function.update_of_ne (Ne.symm same)]
    refine ⟨?_, ?_, ?_⟩
    · simp [known, new, same]
    · simp [log, new, Call.connects, List.countP_append, same]
    · rw [valid.chainStarts_nil (by rw [known]), new]
      simp [same]

theorem tallied_step (valid : s.fault = none → s.Valid) (e : Event) (p : Protocol) :
    Tallied T s e p := by
  by_cases stopped : s.fault ≠ none
  · have nothing : s.accepts e = [] := by
      unfold accepts
      exact if_pos (Option.isSome_iff_ne_none.mpr stopped)
    have idle : chainStarts T p s e = [] := by
      unfold chainStarts
      split
      · rename_i empty
        rw [step_stopped stopped, List.isEmpty_iff.mp empty, kinds_nil]
      · rfl
    exact ⟨by simp [step_stopped stopped, nothing], by simp [step_stopped stopped, nothing],
      by rw [idle, nothing]; rfl⟩
  replace valid := valid (not_not.mp stopped)
  rcases valid.step_cases (T := T) e with ⟨i, q, r, rfl, finished, fresh⟩ |
    ⟨i, q, ec, rfl, failed, same⟩ | ⟨-, nothing, apart⟩
  · exact valid.tallied_accepted finished fresh p
  · exact valid.tallied_nothing (by simp [accepts, failed]) (by rw [same]) (by rw [same])
  · exact valid.tallied_nothing nothing (apart.known p) (apart.connects p)

theorem Armed.taken (armed : s.Armed) (opened : s.acceptor.isOpen = true) {i : Nat}
    {r : Completion Unit} (finished : ready s.acceptor.ops i = some ((), r)) :
    (s.acceptor.take i).outstanding = [] := by
  obtain ⟨before, after, all, rest⟩ := Socket.outstanding_take finished
  have single := congrArg List.length (all.symm.trans (armed opened))
  simp only [List.length_append, List.length_cons, List.length_nil] at single
  have none : (s.acceptor.take i).outstanding.length = 0 := by
    rw [rest, List.length_append]
    omega
  exact List.length_eq_zero_iff.mp none

theorem Armed.step (armed : s.Armed) (valid : s.fault = none → s.Valid) {e : Event}
    (closed : s.FailsClosed e) : (s.step T e).Armed := by
  by_cases stopped : s.fault ≠ none
  · rwa [step_stopped stopped]
  have running := not_not.mp stopped
  replace valid := valid running
  intro opened
  rcases valid.step_cases (T := T) e with ⟨i, p, r, rfl, finished, fresh⟩ |
    ⟨i, p, ec, rfl, failed, same⟩ | ⟨-, -, apart⟩
  · have acceptor := (valid.step_accepted (T := T) finished fresh).1
    rw [acceptor] at opened ⊢
    rw [Socket.outstanding_start, armed.taken opened finished]
    rfl
  · rw [same] at opened
    have closed := closed ⟨running, i, p, ec, rfl, failed⟩
    exact absurd (closed.symm.trans opened) (by decide)
  · rw [apart.outstanding]
    exact armed (apart.isOpen opened)

theorem Armed.lost (armed : s.Armed) {e : Event} (fails : ¬ s.FailsClosed e) :
    ¬ (s.step T e).Armed := by
  simp only [FailsClosed, Classical.not_imp, Bool.not_eq_false] at fails
  obtain ⟨⟨running, i, p, ec, rfl, failed⟩, opened⟩ := fails
  have same : s.step T (.runAccept i p) = { s with acceptor := s.acceptor.take i } := by
    rw [step_running running]
    simp only [act, failed]
  intro still
  rw [same] at still
  have none := still opened
  rw [armed.taken opened failed] at none
  cases none

end Step

theorem armed_iff (T : Thrift) (es : List Event) :
    Along (step T) (fun s e => (s.step T e).Armed) create es ↔
      Along (step T) FailsClosed create es := by
  refine along_iff_of_exact (I := fun s => (s.fault = none → s.Valid) ∧ s.Armed)
    (fun s e kept closed => ?_) (fun s e kept fails => ?_) ⟨fun _ => valid_create, fun _ => rfl⟩ es
  · obtain ⟨valid, armed⟩ := kept
    have next := armed.step (T := T) valid closed
    exact ⟨next, valid_of_running valid, next⟩
  · exact kept.2.lost fails

section Run

variable (T : Thrift) (es : List Event) (p : Protocol)

theorem count_accepts {m : Server → Nat}
    (tallied : ∀ s e, Tallied T s e p → m (s.step T e) = m s + (s.accepts e).count p) :
    m (run (step T) create es) = m create + (collect (step T) accepts create es).count p :=
  run_countP (q := (· == p)) (I := fun s : Server => s.fault = none → s.Valid)
    (fun s e valid => ⟨valid_of_running valid, tallied s e (tallied_step valid e p)⟩)
    (fun _ => valid_create) es

theorem accepts_le_one : (collect (step T) accepts create es).count p ≤ 1 := by
  have known := count_accepts T es p
    (m := fun s => (s.connections p).isSome.toNat) fun s e tallied => tallied.known
  have nobody : (create.connections p).isSome.toNat = 0 := rfl
  have one := Bool.toNat_le ((run (step T) create es).connections p).isSome
  omega

theorem connects_eq_accepts : (run (step T) create es).log.countP (Call.connects p) =
    (collect (step T) accepts create es).count p := by
  have connects := count_accepts T es p
    (m := fun s => s.log.countP (Call.connects p)) fun s e tallied => tallied.connects
  exact connects.trans (Nat.zero_add _)

theorem chainStarts_eq_accepts : collect (step T) (chainStarts T p) create es =
    List.replicate ((collect (step T) accepts create es).count p) .frameSize := by
  have all : ∀ s : Server, (s.fault = none → s.Valid) → collect (step T) (chainStarts T p) s es =
      List.replicate ((collect (step T) accepts s es).count p) .frameSize := by
    induction es with
    | nil => exact fun _ _ => rfl
    | cons e es ih =>
      intro s valid
      rw [collect, collect, List.count_append, List.replicate_add, (tallied_step valid e p).starts,
        ih _ (valid_of_running valid)]
  exact all create fun _ => valid_create

end Run

theorem keepsAccepting_iff_armed {T : Thrift} {es : List Event} :
    KeepsAccepting T es ↔ (run (step T) create es).Armed := by
  refine ⟨KeepsAccepting.armed, fun armed => ?_⟩
  have one : ∀ p ∈ collect (step T) accepts create es,
      (collect (step T) accepts create es).count p = 1 := fun p accepted =>
    Nat.le_antisymm (accepts_le_one T es p) (List.one_le_count_iff.mpr accepted)
  refine ⟨armed, List.nodup_iff_count.mpr fun p => accepts_le_one T es p, ?_, ?_⟩
  · exact fun p accepted => (connects_eq_accepts T es p).trans (one p accepted)
  · intro p accepted
    rw [chainStarts_eq_accepts, one p accepted]
    rfl

/-- In every state of a run, finite or not, the server has kept accepting exactly if no handler of
an accept was given an error while the acceptor was open. -/
theorem keepsAccepting_iff (T : Thrift) :
    (∀ es, (∀ fs, fs <+: es → KeepsAccepting T fs) ↔ Along (step T) FailsClosed create es) ∧
      ∀ f : Nat → Event, (∀ n, KeepsAccepting T ((List.range n).map f)) ↔
        ∀ n, (trace (step T) create f n).FailsClosed (f n) := by
  have first : create.Armed := fun _ => rfl
  have finite : ∀ es, (∀ fs, fs <+: es → KeepsAccepting T fs) ↔
      Along (step T) FailsClosed create es := by
    intro es
    simp only [keepsAccepting_iff_armed, forall_prefix_iff (Q := Armed), first, true_and]
    exact armed_iff T es
  refine ⟨finite, fun f => ?_⟩
  rw [← along_trace_iff]
  constructor
  · intro all n
    refine (finite _).mp fun fs part => ?_
    have start := List.prefix_iff_eq_take.mp part
    rw [← List.map_take, List.take_range] at start
    rw [start]
    exact all _
  · exact fun all n => (finite _).mpr (all n) _ List.prefix_rfl

theorem deaf_step {T : Thrift} {s : Server} (deaf : s.acceptor.outstanding = []) (e : Event) :
    (s.step T e).acceptor.outstanding = [] ∧ s.accepts e = [] := by
  by_cases other : ∀ i p, e ≠ .runAccept i p
  · exact ⟨(apart_step s other).outstanding.trans deaf, accepts_other s other⟩
  · simp only [not_forall, not_not] at other
    obtain ⟨i, p, rfl⟩ := other
    have finished : ready s.acceptor.ops i = none := by
      simp [ready, List.map_eq_nil_iff.mp deaf]
    refine ⟨?_, by simp [accepts, finished]⟩
    by_cases stopped : s.fault ≠ none
    · rwa [step_stopped stopped]
    · rw [step_running (not_not.mp stopped)]
      simpa only [act, finished] using deaf

theorem deaf_run {T : Thrift} {s : Server} (deaf : s.acceptor.outstanding = [])
    (es : List Event) : collect (step T) accepts s es = [] := by
  induction es generalizing s with
  | nil => rfl
  | cons e es ih =>
    obtain ⟨still, nobody⟩ := deaf_step (T := T) deaf e
    rw [collect, nobody, ih still]
    rfl

def abortedAccept : List Event := [.finishAccept 0 (.error (.system 103)), .runAccept 0 7]

theorem aborted_accept_deafens :
    let s := run (step BinaryProtocol.library) create abortedAccept
    s.fault = none ∧ s.acceptor.isOpen = true ∧
      (∀ es, collect (step BinaryProtocol.library) accepts s es = []) ∧
      ¬ KeepsAccepting BinaryProtocol.library abortedAccept := by
  intro s
  have opened : s.acceptor.isOpen = true := rfl
  have deaf : s.acceptor.outstanding = [] := rfl
  refine ⟨rfl, opened, deaf_run deaf, fun keeps => ?_⟩
  have one := keeps.armed opened
  rw [deaf] at one
  cases one

end Server

end ThriftAsio
