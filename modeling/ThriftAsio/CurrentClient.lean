import ThriftAsio.FramesProcessed

/-! `current_client_` between two handlers. `on_client_connected` leaves the new session in it,
and only `after_process` takes it out again, whichever connection the frame is from. -/

namespace ThriftAsio
open Proactor Asio Machine

def Call.enter (last : Option (Protocol × ClientPtr)) : Call → Option (Protocol × ClientPtr)
  | .connected p client => some (p, client)
  | .afterProcess => none
  | _ => last

def lastEntered (log : List Call) : Option (Protocol × ClientPtr) := log.foldl Call.enter none

theorem lastEntered_append (log more : List Call) :
    lastEntered (log ++ more) = more.foldl Call.enter (lastEntered log) := List.foldl_append

theorem lastEntered_serving (a : Chains) (p : Protocol) (payload : List UInt8) (answer : Answer)
    (log : List Call) : lastEntered (log ++ a.serving p payload answer) = none := by
  rw [Chains.serving, ← List.append_assoc, lastEntered_append]
  rfl

theorem lastEntered_eq_some {log : List Call} {p : Protocol} {client : ClientPtr} :
    lastEntered log = some (p, client) ↔
      ∃ before after, log = before ++ .connected p client :: after ∧ .afterProcess ∉ after ∧
        ∀ q other, .connected q other ∉ after := by
  constructor
  · induction log using List.reverseRecOn with
    | nil => intro h; cases h
    | append_singleton log call ih =>
      intro h
      rw [lastEntered_append] at h
      cases call with
      | connected q other =>
        obtain ⟨rfl, rfl⟩ : q = p ∧ other = client := by simpa [Call.enter] using h
        exact ⟨log, [], rfl, by simp, by simp⟩
      | afterProcess => cases h
      | _ =>
        obtain ⟨before, after, rfl, processed, entered⟩ := ih h
        refine ⟨before, after ++ [_], by rw [List.append_assoc, List.cons_append], ?_, ?_⟩
        · simpa using processed
        · simpa using entered
  · rintro ⟨before, after, rfl, processed, entered⟩
    rw [lastEntered_append, List.foldl_cons]
    change after.foldl Call.enter (some (p, client)) = some (p, client)
    induction after with
    | nil => rfl
    | cons call after ih =>
      have kept : Call.enter (some (p, client)) call = some (p, client) := by
        cases call with
        | connected q other => exact absurd List.mem_cons_self (entered q other)
        | afterProcess => exact absurd List.mem_cons_self processed
        | _ => rfl
      rw [List.foldl_cons, kept]
      exact ih (fun h => processed (List.mem_cons_of_mem _ h))
        fun q other h => entered q other (List.mem_cons_of_mem _ h)

/-- Every accepted client has been followed by a processed frame. -/
def Settled (log : List Call) : Prop :=
  ∀ before p client after, log = before ++ .connected p client :: after → .afterProcess ∈ after

/-- The client that was accepted last, with no frame processed since, has not disconnected. -/
def Released (log : List Call) : Prop :=
  ∀ before p client after, log = before ++ .connected p client :: after →
    .afterProcess ∉ after → (∀ q other, .connected q other ∉ after) → .disconnected p ∉ log

theorem lastEntered_eq_none {log : List Call} : lastEntered log = none ↔ Settled log := by
  constructor
  · intro idle before p client after split
    by_contra processed
    have stays : ∀ after : List Call, .afterProcess ∉ after → ∀ x : Protocol × ClientPtr,
        after.foldl Call.enter (some x) ≠ none := by
      intro after
      induction after with
      | nil => intro _ x h; cases h
      | cons call after ih =>
        intro processed x
        have later : .afterProcess ∉ after := fun h => processed (List.mem_cons_of_mem _ h)
        cases call with
        | afterProcess => exact absurd List.mem_cons_self processed
        | _ => exact ih later _
    rw [split, lastEntered_append, List.foldl_cons] at idle
    exact stays after processed _ idle
  · intro settled
    cases entered : lastEntered log with
    | none => rfl
    | some x =>
      obtain ⟨before, after, split, processed, -⟩ := lastEntered_eq_some.mp entered
      exact absurd (settled before x.1 x.2 after split) processed

namespace Chains

/-- What `current_client_` holds, and that no frame of a client is processed after it is gone. -/
structure Slot (a : Chains) : Prop where
  holds : a.handler.currentClient = (lastEntered a.log).map Prod.snd
  owner : ∀ p client, lastEntered a.log = some (p, client) →
    (a.handler.sessions client).client = p ∧
      (p ∈ a.handler.clients → a.handler.clients[p]? = some client)
  gone : a.log.Pairwise fun x y =>
    ∀ p payload current, x = .disconnected p → y ≠ .process p payload current

variable {a b : Chains}

/-- A call that is not `process` may come after any disconnect. -/
theorem Slot.gone_snoc (slot : a.Slot) {call : Call}
    (other : ∀ p payload current, call ≠ .process p payload current) :
    (a.log ++ [call]).Pairwise fun x y =>
      ∀ p payload current, x = .disconnected p → y ≠ .process p payload current := by
  refine List.pairwise_append.mpr ⟨slot.gone, List.pairwise_singleton _ _, ?_⟩
  rintro x - y hy p payload current -
  rw [List.mem_singleton.mp hy]
  exact other p payload current

theorem Slot.gone_serving (slot : a.Slot) {p : Protocol} {payload : List UInt8} {answer : Answer}
    (present : .disconnected p ∉ a.log) :
    (a.log ++ serving a p payload answer).Pairwise fun x y =>
      ∀ q bytes current, x = .disconnected q → y ≠ .process q bytes current := by
  refine List.pairwise_append.mpr ⟨slot.gone, ?_, ?_⟩
  · apply List.pairwise_of_forall_mem_list
    rintro x hx y - q bytes current rfl
    exact absurd hx (serving_disconnected a p payload answer q)
  · rintro x hx y hy q bytes current rfl rfl
    have same : q = p := by
      simp only [serving, List.mem_append, List.mem_cons, List.mem_map, List.not_mem_nil,
        or_false, reduceCtorEq, false_or, and_false, exists_false, Call.process.injEq] at hy
      exact hy.1
    exact present (same ▸ hx)

theorem Slot.step {T : Thrift} {i : Option Input} (slot : a.Slot) (ok : a.Consistent)
    (logged : a.Logged) (h : Step T i a b) : b.Slot := by
  have moved : ∀ p l, (a.setLink p l).Slot := fun p l => ⟨slot.holds, slot.owner, slot.gone⟩
  cases h with
  | stutter => exact slot
  | arrived link bytes => exact moved _ _
  | completed link reading enough => exact moved _ _
  | failed link ec => exact moved _ _
  | sized link read next => exact moved _ _
  | @served _ p l link n payload read request decoded answer served r next =>
    have connected : p ∈ a.handler.clients :=
      (ok.reading link (by rw [read]; exact List.mem_cons_self)).1
    have present : .disconnected p ∉ a.log := by
      apply List.count_eq_zero.mp
      rw [logged.gone p, if_neg fun gone => gone.2 connected]
    have idle := lastEntered_serving a p payload answer a.log
    refine ⟨?_, ?_, slot.gone_serving present⟩
    · exact (Handler.serve_idle served).trans (by rw [idle]; rfl)
    · intro q client h
      rw [idle] at h
      cases h
  | @accepted _ p h fresh made =>
    obtain ⟨-, -, current, sessions, clients⟩ := Handler.connected_spec made
    have entered : lastEntered (a.log ++ [.connected p a.handler.made]) =
        some (p, a.handler.made) := by
      rw [lastEntered_append]
      rfl
    refine ⟨?_, ?_, slot.gone_snoc (by simp)⟩
    · exact current.trans (by rw [entered]; rfl)
    · intro q client h
      obtain ⟨rfl, rfl⟩ : p = q ∧ a.handler.made = client := by simpa [entered] using h
      exact ⟨by simp [sessions], fun _ => by simp [clients]⟩
  | @disconnected _ p l link op ec failed h erased =>
    have member := Handler.mem_disconnected erased
    obtain ⟨-, rfl⟩ := Handler.disconnected_spec erased
    have entered : lastEntered (a.log ++ [.disconnected p]) = lastEntered a.log := by
      rw [lastEntered_append]
      rfl
    refine ⟨?_, ?_, slot.gone_snoc (by simp)⟩
    · exact slot.holds.trans (by rw [entered])
    · intro q client h
      rw [entered] at h
      obtain ⟨own, still⟩ := slot.owner q client h
      refine ⟨own, fun known => ?_⟩
      obtain ⟨other, before⟩ := (member q).mp known
      simpa [Std.ExtTreeMap.getElem?_erase, Ne.symm other] using still before

end Chains

namespace Server

variable {T : Thrift} {s : Server}

/-- `current_client_` as its comment has it, in a state between two handlers: it is null, it is
the session of a connected client otherwise, and during `process` it is that of the client whose
frame is processed. -/
structure OnlyInRequests (s : Server) : Prop where
  idle : s.handler.currentClient = none
  stored : ∀ client, s.handler.currentClient = some client →
    ∃ p : Protocol, s.handler.clients[p]? = some client
  processing : ∀ before after p payload current,
    s.log = before ++ .process p payload current :: after →
      ∃ client, current = some client ∧ .connected p client ∈ before ∧ .disconnected p ∉ before

structure Slotted (s : Server) : Prop where
  valid : s.Valid
  attributed : s.chains.Attributed
  slot : s.chains.Slot

theorem slotted_create : create.Slotted := by
  refine ⟨valid_create, attributed_create, rfl, ?_, List.Pairwise.nil⟩
  intro p client h
  cases h

theorem Slotted.step {e : Event} (ok : s.Slotted) (returns : s.Returns T e) :
    (s.step T e).Slotted := by
  have moved := (step_chains ok.valid.sound ok.valid.consistent returns).2
  exact ⟨ok.valid.step returns, ok.attributed.step ok.valid.consistent moved,
    ok.slot.step ok.valid.consistent ok.valid.logged moved⟩

theorem Slotted.processing (ok : s.Slotted) (before after : List Call) (p : Protocol)
    (payload : List UInt8) (current : Option ClientPtr)
    (split : s.log = before ++ .process p payload current :: after) :
    ∃ client, current = some client ∧ .connected p client ∈ before ∧
      .disconnected p ∉ before := by
  obtain ⟨client, rfl, entered⟩ := ok.attributed.current before after p payload current split
  refine ⟨client, rfl, entered, fun left => ?_⟩
  have ordered := ok.slot.gone
  rw [show s.chains.log = _ from split] at ordered
  exact (List.pairwise_append.mp ordered).2.2 _ left _ List.mem_cons_self p payload _ rfl rfl

theorem Slotted.present (ok : s.Slotted) {p : Protocol} {client : Nat}
    (entered : lastEntered s.log = some (p, client)) :
    p ∈ s.handler.clients ↔ .disconnected p ∉ s.log := by
  obtain ⟨before, after, split, -⟩ := lastEntered_eq_some.mp entered
  have accepted : (s.chains.links p).isSome := by
    have once := ok.valid.logged.once p
    by_contra none
    rw [if_neg none, List.countP_eq_zero] at once
    have member : .connected p client ∈ s.log := by simp [split]
    exact once _ member (by simp [Call.connects])
  have count : s.log.count (.disconnected p) = if ¬ p ∈ s.handler.clients then 1 else 0 :=
    (ok.valid.logged.gone p).trans (by rw [accepted]; simp; rfl)
  by_cases known : p ∈ s.handler.clients
  · rw [if_neg (not_not.mpr known)] at count
    exact iff_of_true known (List.count_eq_zero.mp count)
  · rw [if_pos known] at count
    refine iff_of_false known fun absent => ?_
    have none : s.log.count (.disconnected p) = 0 := List.count_eq_zero.mpr absent
    exact absurd (count.symm.trans none) (by decide)

theorem Slotted.stored_iff (ok : s.Slotted) :
    (∀ client, s.handler.currentClient = some client →
      ∃ p : Protocol, s.handler.clients[p]? = some client) ↔ Released s.log := by
  have holds : s.handler.currentClient = (lastEntered s.log).map Prod.snd := ok.slot.holds
  constructor
  · intro stored before p client after split processed entered
    have last : lastEntered s.log = some (p, client) :=
      lastEntered_eq_some.mpr ⟨before, after, split, processed, entered⟩
    obtain ⟨q, hq⟩ := stored client (by rw [holds, last]; rfl)
    have same : q = p :=
      (ok.valid.consistent.handler.own q client hq).symm.trans (ok.slot.owner p client last).1
    refine (ok.present last).mp ?_
    rw [← same, Std.ExtTreeMap.mem_iff_isSome_getElem?, hq]
    rfl
  · intro released client current
    rw [holds, Option.map_eq_some_iff] at current
    obtain ⟨⟨p, c⟩, last, rfl⟩ := current
    obtain ⟨before, after, split, processed, entered⟩ := lastEntered_eq_some.mp last
    have known : p ∈ s.handler.clients :=
      (ok.present last).mpr (released before p c after split processed entered)
    exact ⟨p, (ok.slot.owner p c last).2 known⟩

/-- In every run in which the processor returns, `current_client_` is what its comment says
exactly if a frame has been processed since the last accept. It is at least not the session of a
client that has gone exactly if the client accepted last has not gone before that. -/
theorem onlyInRequests_iff (T : Thrift) (es : List Event)
    (returns : Along (step T) (Returns T) create es) :
    ((run (step T) create es).OnlyInRequests ↔ Settled (run (step T) create es).log) ∧
      ((∀ client, (run (step T) create es).handler.currentClient = some client →
          ∃ p : Protocol, (run (step T) create es).handler.clients[p]? = some client) ↔
        Released (run (step T) create es).log) := by
  have ok : (run (step T) create es).Slotted :=
    run_invariant_along (I := Slotted) (fun _ _ ok returns => ok.step returns) slotted_create
      returns
  refine ⟨?_, ok.stored_iff⟩
  rw [← lastEntered_eq_none]
  constructor
  · intro documented
    have idle := ok.slot.holds.symm.trans documented.idle
    rwa [Option.map_eq_none_iff] at idle
  · intro settled
    have idle : (run (step T) create es).handler.currentClient = none :=
      ok.slot.holds.trans (Option.map_eq_none_iff.mpr settled)
    refine ⟨idle, fun client current => ?_, ok.processing⟩
    rw [idle] at current
    cases current

def versionAsked : List Event :=
  [.finishAccept 0 (.ok ()), .runAccept 0 7] ++ frameFrom 7 (BinaryProtocol.getVersion 0)

theorem onlyInRequests_version_asked :
    (run (step BinaryProtocol.library) create versionAsked).OnlyInRequests :=
  (onlyInRequests_iff BinaryProtocol.library versionAsked (by decide +kernel)).1.mpr
    (lastEntered_eq_none.mp (by decide +kernel))

def clientGone : List Event :=
  [.finishAccept 0 (.ok ()), .runAccept 0 7, .finish 7 0 (.error .eof), .run 7 0]

/-- The session of the only client stays the current one when the client has gone. -/
theorem current_client_gone :
    Along (step BinaryProtocol.library) (Returns BinaryProtocol.library) create clientGone ∧
      (run (step BinaryProtocol.library) create (clientGone.take 2)).handler.currentClient =
        some 0 ∧
      (run (step BinaryProtocol.library) create clientGone).handler.currentClient = some 0 ∧
      (run (step BinaryProtocol.library) create clientGone).handler.clients.isEmpty := by
  decide +kernel

end Server

end ThriftAsio
