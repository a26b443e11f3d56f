import ThriftAsio.Sessions

/-! User names of the connected sessions. The loop in `setUserName` finds the first entry of
`clients_`, in its key order, that has the name, and answers to that entry's session. -/

namespace ThriftAsio.Handler
open Machine

def Held (h : Handler) (name : Bytes) : Prop := ∃ p, h.nameOf p = some name

theorem nameOf_eq_some {h : Handler} {p : Protocol} {name : Bytes} :
    h.nameOf p = some name ↔ ∃ c, h.clients[p]? = some c ∧ (h.sessions c).userName = name := by
  simp [nameOf]

theorem holder_eq_none {h : Handler} {name : Bytes} : h.holder name = none ↔ ¬ h.Held name := by
  simp only [holder, List.find?_eq_none, decide_eq_true_eq, Held, nameOf_eq_some, not_exists,
    not_and, Prod.forall, Std.ExtTreeMap.mem_toList_iff_getElem?_eq_some]

theorem holder_eq_some {h : Handler} {name : Bytes} {q : Protocol} {c : ClientPtr}
    (found : h.holder name = some (q, c)) :
    h.clients[q]? = some c ∧ h.nameOf q = some name ∧ ∀ p < q, h.nameOf p ≠ some name := by
  obtain ⟨has, before, after, split, none_before⟩ := List.find?_eq_some_iff_append.mp found
  simp only [decide_eq_true_eq] at has
  have entry : h.clients[q]? = some c := by
    rw [← Std.ExtTreeMap.mem_toList_iff_getElem?_eq_some, split]
    simp
  refine ⟨entry, nameOf_eq_some.mpr ⟨c, entry, has⟩, fun p less named => ?_⟩
  obtain ⟨d, hd, hname⟩ := nameOf_eq_some.mp named
  have ordered := Std.ExtTreeMap.ordered_keys_toList (t := h.clients)
  rw [← Std.ExtTreeMap.mem_toList_iff_getElem?_eq_some, split] at hd
  rw [split] at ordered
  have later := (List.pairwise_append.mp ordered).2.1
  simp only [List.mem_append, List.mem_cons, Prod.mk.injEq] at hd
  rcases hd with hd | ⟨rfl, -⟩ | hd
  · simpa [hname] using none_before (p, d) hd
  · exact lt_irrefl _ less
  · have greater := List.rel_of_pairwise_cons later hd
    rw [Nat.compare_eq_lt] at greater
    exact lt_asymm less greater

section Step

variable {h h' : Handler} (ok : h.Wellformed) {p : Protocol}
include ok

theorem Wellformed.connected (done : h.onClientConnected p = .ok h') :
    h'.Wellformed ∧ h.nameOf p = none ∧
      ∀ q, h'.nameOf q = if p = q then some [] else h.nameOf q := by
  obtain ⟨fresh, made, -, sessions, clients⟩ := connected_spec done
  have session : ∀ (q : Protocol) c, h.clients[q]? = some c → h'.sessions c = h.sessions c := by
    intro q c hc
    have older := ok.made q c hc
    rw [sessions, Function.update_of_ne (ne_of_lt older)]
  refine ⟨⟨fun q c hc => ?_, fun q c hc => ?_⟩, by simp [nameOf, fresh], fun q => ?_⟩
  · rw [made]
    rw [clients] at hc
    split at hc
    · obtain rfl := Option.some.inj hc
      exact Nat.lt_succ_self _
    · exact Nat.lt_succ_of_lt (ok.made q c hc)
  · rw [clients] at hc
    split at hc
    · obtain rfl := Option.some.inj hc
      rw [sessions, Function.update_self]
      assumption
    · rw [session q c hc]
      exact ok.own q c hc
  · simp only [nameOf, clients]
    split
    · simp [sessions]
    · cases hc : h.clients[q]? with
      | none => rfl
      | some c => simp [session q c hc]

theorem Wellformed.disconnected (done : h.onClientDisconnected p = .ok h') :
    h'.Wellformed ∧ ∀ q, h'.nameOf q = if p = q then none else h.nameOf q := by
  obtain ⟨-, rfl⟩ := disconnected_spec done
  have clients : ∀ q : Protocol,
      (h.clients.erase p)[q]? = if p = q then none else h.clients[q]? := by
    intro q
    simp only [Std.ExtTreeMap.getElem?_erase, Nat.compare_eq_eq]
  have older : ∀ (q : Protocol) c, (h.clients.erase p)[q]? = some c → h.clients[q]? = some c := by
    intro q c hc
    rw [clients] at hc
    split at hc
    · cases hc
    · exact hc
  refine ⟨⟨fun q c hc => ok.made q c (older q c hc), fun q c hc => ok.own q c (older q c hc)⟩,
    fun q => ?_⟩
  simp only [nameOf, clients]
  split <;> rfl

theorem Wellformed.rename {c : ClientPtr} (connected : h.clients[p]? = some c) (name : Bytes) :
    (h.rename c name).Wellformed ∧
      ∀ q, (h.rename c name).nameOf q = if p = q then some name else h.nameOf q := by
  refine ⟨⟨ok.made, fun q d hd => ?_⟩, fun q => ?_⟩
  · by_cases same : d = c
    · subst same
      simpa [Handler.rename] using ok.own q d hd
    · simpa [Handler.rename, same] using ok.own q d hd
  · by_cases same : p = q
    · subst same
      simp [nameOf, Handler.rename, connected]
    · have other : ∀ d, h.clients[q]? = some d → d ≠ c := by
        rintro d hd rfl
        exact same (ok.injective connected hd)
      simp only [nameOf, Handler.rename, if_neg same]
      cases hd : h.clients[q]? with
      | none => rfl
      | some d => simp [other d hd]

theorem Wellformed.idle : Wellformed { h with currentClient := none } := ⟨ok.made, ok.own⟩

theorem Wellformed.act {e : Event} (done : h.act e = .ok h') :
    h'.Wellformed ∧
      ((∃ p, e = .connected p ∧ ∀ q, h'.nameOf q = if p = q then some [] else h.nameOf q) ∨
        (∃ p, e = .disconnected p ∧ ∀ q, h'.nameOf q = if p = q then none else h.nameOf q) ∨
        (∃ p name, e = .request p (.setUserName name) ∧ ¬ h.Held name ∧
          ∀ q, h'.nameOf q = if p = q then some name else h.nameOf q) ∨
        (∀ p name, e = .request p (.setUserName name) → h.Held name) ∧
          ∀ q, h'.nameOf q = h.nameOf q) := by
  cases e with
  | connected p =>
    obtain ⟨ok', -, names⟩ := ok.connected done
    exact ⟨ok', .inl ⟨p, rfl, names⟩⟩
  | disconnected p =>
    obtain ⟨ok', names⟩ := ok.disconnected done
    exact ⟨ok', .inr (.inl ⟨p, rfl, names⟩)⟩
  | request p r =>
    cases connected : h.clients[p]? with
    | none => simp [Handler.act, serve, beforeProcess, connected] at done; cases done
    | some c =>
      by_cases naming : ∃ name, r = .setUserName name
      · obtain ⟨name, rfl⟩ := naming
        simp only [Handler.act] at done
        cases found : h.holder name with
        | none =>
          rw [serve_free connected found] at done
          obtain rfl := Except.ok.inj done
          obtain ⟨ok', names⟩ := ok.rename connected name
          exact ⟨ok'.idle, .inr (.inr (.inl ⟨p, name, rfl, holder_eq_none.mp found, names⟩))⟩
        | some e =>
          rw [serve_taken connected found] at done
          obtain rfl := Except.ok.inj done
          have held : h.Held name := ⟨e.1, (holder_eq_some found).2.1⟩
          refine ⟨ok.idle, .inr (.inr (.inr ⟨fun p' name' same => ?_, fun q => rfl⟩))⟩
          obtain ⟨rfl, rfl⟩ : p = p' ∧ name = name' := by simpa using same
          exact held
      · obtain ⟨sent, served⟩ := serve_other connected fun name h => naming ⟨name, h⟩
        simp only [Handler.act, served] at done
        obtain rfl := Except.ok.inj done
        refine ⟨ok.idle, .inr (.inr (.inr ⟨fun p' name' same => ?_, fun q => rfl⟩))⟩
        exact absurd ⟨name', (Event.request.inj same).2⟩ naming

end Step

theorem step_ok {s : Except Fault Handler} {e : Event} {h' : Handler} (done : step s e = .ok h') :
    ∃ h, s = .ok h ∧ h.act e = .ok h' := by
  cases s with
  | error f => cases done
  | ok h => exact ⟨h, rfl, done⟩

/-- No two connected sessions have the same name, unless they have none. -/
def UniqueNames (h : Handler) : Prop :=
  ∀ p q name, h.nameOf p = some name → h.nameOf q = some name → name ≠ [] → p = q

theorem UniqueNames.act {h h' : Handler} (unique : h.UniqueNames) (ok : h.Wellformed) {e : Event}
    (done : h.act e = .ok h') : h'.UniqueNames := by
  intro q q' name hq hq' named
  rcases (ok.act done).2 with ⟨p, -, names⟩ | ⟨p, -, names⟩ | ⟨p, taken, -, free, names⟩ |
    ⟨-, names⟩
  · have other : ∀ q, h'.nameOf q = some name → h.nameOf q = some name := by
      intro q hq
      rw [names] at hq
      split at hq
      · exact absurd (Option.some.inj hq).symm named
      · exact hq
    exact unique q q' name (other q hq) (other q' hq') named
  · have other : ∀ q, h'.nameOf q = some name → h.nameOf q = some name := by
      intro q hq
      rw [names] at hq
      split at hq
      · cases hq
      · exact hq
    exact unique q q' name (other q hq) (other q' hq') named
  · rw [names] at hq hq'
    split at hq <;> split at hq'
    · rename_i same same'
      exact same.symm.trans same'
    · obtain rfl := Option.some.inj hq
      exact absurd ⟨q', hq'⟩ free
    · obtain rfl := Option.some.inj hq'
      exact absurd ⟨q, hq⟩ free
    · exact unique q q' name hq hq' named
  · rw [names] at hq hq'
    exact unique q q' name hq hq' named

theorem reached_ok (es : List Event) {h : Handler} (reached : run step (.ok create) es = .ok h) :
    h.Wellformed ∧ h.UniqueNames := by
  have all : ∀ h, run step (.ok create) es = .ok h → h.Wellformed ∧ h.UniqueNames := by
    refine run_invariant
      (I := fun s : Except Fault Handler => ∀ h, s = .ok h → h.Wellformed ∧ h.UniqueNames) ?_ ?_ es
    · intro s e kept h' done
      obtain ⟨h, rfl, acted⟩ := step_ok done
      obtain ⟨ok, unique⟩ := kept h rfl
      exact ⟨(ok.act acted).1, unique.act ok acted⟩
    · rintro h ⟨⟩
      exact ⟨wellformed_create, by simp [UniqueNames, nameOf, create]⟩
  exact all h reached

/-- The request is answered once, to the session that made it, with a success if no connected
session had the name and with a failure otherwise. -/
def Answered (h : Handler) (p : Protocol) (name : Bytes) : Prop :=
  ∃ a, h.serve p (.setUserName name) = .ok a ∧
    (¬ h.Held name → a.sent = [(p, .call .onSetUserNameSucceeded)]) ∧
    (h.Held name → ∃ why, a.sent = [(p, .call (.onSetUserNameFailed why))])

/-- In every reachable state a connected client gets its answer exactly if no session has the
name, or the first entry of `clients_` that has it is the client's own. -/
theorem answered_iff (es : List Event) {h : Handler}
    (reached : run step (.ok create) es = .ok h) {p : Protocol} (connected : p ∈ h.clients)
    (name : Bytes) :
    h.Answered p name ↔ (∀ q, h.nameOf q ≠ some name) ∨
      (h.nameOf p = some name ∧ ∀ q < p, h.nameOf q ≠ some name) := by
  obtain ⟨ok, -⟩ := reached_ok es reached
  obtain ⟨c, hc⟩ : ∃ c, h.clients[p]? = some c :=
    ⟨h.clients[p], Std.ExtTreeMap.getElem?_eq_some_getElem connected⟩
  cases found : h.holder name with
  | none =>
    have free := holder_eq_none.mp found
    have client : h.reply c .onSetUserNameSucceeded = (p, .call .onSetUserNameSucceeded) := by
      rw [reply, ok.own p c hc]
    refine iff_of_true
      ⟨_, serve_free hc found, fun _ => by rw [client], fun held => absurd held free⟩
      (.inl fun q named => free ⟨q, named⟩)
  | some e =>
    obtain ⟨q, d⟩ := e
    obtain ⟨hd, named, first⟩ := holder_eq_some found
    have client : h.reply d (.onSetUserNameFailed (bytes "username already taken")) =
        (q, .call (.onSetUserNameFailed (bytes "username already taken"))) := by
      rw [reply, ok.own q d hd]
    constructor
    · rintro ⟨a, served, -, failed⟩
      rw [serve_taken hc found] at served
      obtain rfl := Except.ok.inj served
      obtain ⟨why, sent⟩ := failed ⟨q, named⟩
      rw [client] at sent
      obtain rfl : q = p := congrArg Prod.fst (List.cons.inj sent).1
      exact .inr ⟨named, first⟩
    · rintro (free | ⟨own, earliest⟩)
      · exact absurd named (free q)
      · have same : q = p := by
          rcases lt_trichotomy q p with less | same | greater
          · exact absurd named (earliest q less)
          · exact same
          · exact absurd own (first p greater)
        subst same
        exact ⟨_, serve_taken hc found, fun free => absurd ⟨q, named⟩ free,
          fun _ => ⟨_, congrArg (fun m => [m]) client⟩⟩

def bob : Bytes := bytes "bob"

theorem answered_first_name :
    ∃ h, run step (.ok create) [.connected 4, .connected 2] = .ok h ∧ h.Answered 4 bob :=
  ⟨_, rfl, (answered_iff [.connected 4, .connected 2] rfl (by decide) bob).mpr
    (.inl fun q named => holder_eq_none.mp (by decide) ⟨q, named⟩)⟩

/-- The second client asks for a name that is taken: the first one is told that it failed. -/
theorem failure_goes_to_holder :
    ∃ h, run step (.ok create) [.connected 4, .request 4 (.setUserName bob), .connected 2] = .ok h ∧
      2 ∈ h.clients ∧ ¬ h.Answered 2 bob := by
  refine ⟨_, rfl, by decide, ?_⟩
  rintro ⟨a, served, -, failed⟩
  obtain rfl := Except.ok.inj served
  obtain ⟨why, sent⟩ := failed ⟨4, by decide⟩
  cases sent

/-- The request changes no session but the client's own, and that one exactly if no connected
session has the name; it has the name then. -/
def Owned (h : Handler) (p : Protocol) (name : Bytes) : Prop :=
  ∃ a, h.serve p (.setUserName name) = .ok a ∧ a.handler.clients = h.clients ∧
    (∀ c, h.clients[p]? ≠ some c → a.handler.sessions c = h.sessions c) ∧
    (a.handler.nameOf p ≠ h.nameOf p ↔ ¬ h.Held name) ∧
    (¬ h.Held name → a.handler.nameOf p = some name) ∧
    (h.Held name → a.handler.sessions = h.sessions)

/-- The client gives its name up: it disconnects, or takes a name that no session has. -/
def Event.Frees (h : Handler) (p : Protocol) (e : Event) : Prop :=
  e = .disconnected p ∨ ∃ other, e = .request p (.setUserName other) ∧ ¬ h.Held other

/-- Events that may give a session the name: a request for it, or a new session with no name. -/
def Event.Takes (name : Bytes) : Event → Prop
  | .connected _ => name = []
  | .request _ (.setUserName other) => other = name
  | _ => False

theorem Wellformed.owned {h : Handler} (ok : h.Wellformed) {p : Protocol}
    (connected : p ∈ h.clients) (name : Bytes) : h.Owned p name := by
  obtain ⟨c, hc⟩ : ∃ c, h.clients[p]? = some c :=
    ⟨h.clients[p], Std.ExtTreeMap.getElem?_eq_some_getElem connected⟩
  cases found : h.holder name with
  | none =>
    have free := holder_eq_none.mp found
    obtain ⟨-, names⟩ := ok.rename hc name
    have own : (h.rename c name).nameOf p = some name := by rw [names, if_pos rfl]
    refine ⟨_, serve_free hc found, rfl, fun d hd => ?_, iff_of_true ?_ free, fun _ => own,
      fun held => absurd held free⟩
    · have other : d ≠ c := by
        rintro rfl
        exact hd hc
      exact Function.update_of_ne other _ _
    · intro same
      exact free ⟨p, same.symm.trans own⟩
  | some e =>
    have held : h.Held name := by
      by_contra free
      rw [holder_eq_none.mpr free] at found
      cases found
    exact ⟨_, serve_taken hc found, rfl, fun _ _ => rfl,
      iff_of_false (fun changed => changed rfl) (fun free => free held),
      fun free => absurd held free, fun _ => rfl⟩

theorem Wellformed.frees {h h' : Handler} (ok : h.Wellformed) {p : Protocol} {name : Bytes}
    (named : h.nameOf p = some name) (only : ∀ q, h.nameOf q = some name → q = p) {e : Event}
    (frees : e.Frees h p) (done : h.act e = .ok h') : ¬ h'.Held name := by
  rintro ⟨q, hq⟩
  rcases frees with rfl | ⟨other, rfl, free⟩
  · rw [(ok.disconnected done).2] at hq
    split at hq
    · cases hq
    · rename_i different
      exact different (only q hq).symm
  · rcases (ok.act done).2 with ⟨_, ⟨⟩, _⟩ | ⟨_, ⟨⟩, _⟩ | ⟨p', taken, same, -, names⟩ | ⟨held, -⟩
    · obtain ⟨rfl, rfl⟩ : p = p' ∧ other = taken := by simpa using same
      rw [names] at hq
      split at hq
      · obtain rfl := Option.some.inj hq
        exact free ⟨p, named⟩
      · rename_i different
        exact different (only q hq).symm
    · exact free (held p other rfl)

theorem Wellformed.stays_free {h h' : Handler} (ok : h.Wellformed) {name : Bytes}
    (free : ¬ h.Held name) {e : Event} (spares : ¬ e.Takes name) (done : h.act e = .ok h') :
    ¬ h'.Held name := by
  rintro ⟨q, hq⟩
  rcases (ok.act done).2 with ⟨p, rfl, names⟩ | ⟨p, rfl, names⟩ | ⟨p, taken, rfl, -, names⟩ |
    ⟨-, names⟩
  · rw [names] at hq
    split at hq
    · exact spares (Option.some.inj hq).symm
    · exact free ⟨q, hq⟩
  · rw [names] at hq
    split at hq
    · cases hq
    · exact free ⟨q, hq⟩
  · rw [names] at hq
    split at hq
    · exact spares (Option.some.inj hq)
    · exact free ⟨q, hq⟩
  · rw [names] at hq
    exact free ⟨q, hq⟩

theorem Wellformed.stays_free_run {h h' : Handler} (ok : h.Wellformed) {name : Bytes}
    (free : ¬ h.Held name) {es : List Event} (spare : ∀ e ∈ es, ¬ e.Takes name)
    (reached : run step (.ok h) es = .ok h') : h'.Wellformed ∧ ¬ h'.Held name := by
  have all : ∀ h', run step (.ok h) es = .ok h' → h'.Wellformed ∧ ¬ h'.Held name := by
    refine run_invariant_on (E := fun e : Event => ¬ e.Takes name)
      (I := fun s : Except Fault Handler => ∀ h, s = .ok h → h.Wellformed ∧ ¬ h.Held name)
      ?_ ?_ spare
    · intro s e kept spares h' done
      obtain ⟨h, rfl, acted⟩ := step_ok done
      obtain ⟨ok, free⟩ := kept h rfl
      exact ⟨(ok.act acted).1, ok.stays_free free spares acted⟩
    · rintro h ⟨⟩
      exact ⟨ok, free⟩
  exact all h' reached

theorem Wellformed.frees_ok {h : Handler} (ok : h.Wellformed) {p : Protocol}
    (connected : p ∈ h.clients) {e : Event} (frees : e.Frees h p) : ∃ h', h.act e = .ok h' := by
  rcases frees with rfl | ⟨other, rfl, -⟩
  · exact ⟨_, onClientDisconnected_ok connected⟩
  · obtain ⟨a, served, -⟩ := ok.owned connected other
    exact ⟨a.handler, by rw [Handler.act, served]; rfl⟩

/-- Names are unique, only their owners change them, and a name that its holder gives up can be
had by any connected client until another one has taken it. -/
theorem names_unique_and_owned (es : List Event) {h : Handler}
    (reached : run step (.ok create) es = .ok h) :
    h.UniqueNames ∧
    (∀ p ∈ h.clients, ∀ name, h.Owned p name) ∧
    ∀ p name, h.nameOf p = some name → (name ≠ [] ∨ ∀ q, h.nameOf q = some name → q = p) →
      ∀ e : Event, e.Frees h p → ∃ h₁, h.act e = .ok h₁ ∧
        ∀ es' : List Event, (∀ e' ∈ es', ¬ e'.Takes name) →
        ∀ h', run step (.ok h₁) es' = .ok h' → ∀ q ∈ h'.clients,
          ∃ a, h'.serve q (.setUserName name) = .ok a ∧ a.handler.nameOf q = some name := by
  obtain ⟨ok, unique⟩ := reached_ok es reached
  refine ⟨unique, fun p connected name => ok.owned connected name, ?_⟩
  intro p name named only e frees
  have single : ∀ q, h.nameOf q = some name → q = p := by
    rcases only with nonempty | only
    · exact fun q hq => unique q p name hq named nonempty
    · exact only
  have connected : p ∈ h.clients := by
    obtain ⟨c, hc, -⟩ := nameOf_eq_some.mp named
    exact Std.ExtTreeMap.mem_iff_isSome_getElem?.mpr (by rw [hc]; rfl)
  obtain ⟨h₁, freed⟩ := ok.frees_ok connected frees
  refine ⟨h₁, freed, fun es' spare h' reached' q connected => ?_⟩
  have ok₁ := (ok.act freed).1
  obtain ⟨ok', free⟩ := ok₁.stays_free_run (ok.frees named single frees freed) spare reached'
  obtain ⟨a, served, -, -, -, gets, -⟩ := ok'.owned connected name
  exact ⟨a, served, gets free⟩

theorem name_passed_on :
    ∃ h a, run step (.ok create) [.connected 4, .request 4 (.setUserName bob), .connected 2,
        .disconnected 4] = .ok h ∧
      h.serve 2 (.setUserName bob) = .ok a ∧ a.handler.nameOf 2 = some bob := by
  obtain ⟨-, -, passes⟩ := names_unique_and_owned
    [.connected 4, .request 4 (.setUserName bob), .connected 2] rfl
  obtain ⟨h₁, freed, next⟩ := passes 4 bob (by decide) (.inl (by decide)) _ (.inl rfl)
  obtain ⟨a, served, named⟩ := next [] (by simp) h₁ rfl 2 (by cases freed; decide)
  exact ⟨h₁, a, freed, served, named⟩

end ThriftAsio.Handler
