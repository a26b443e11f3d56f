import ThriftAsio.EndToEnd

/-! What a client knows about its name. The answer to a request for a name that is taken goes to
the holder of the name, so a client cannot tell which of its requests have failed. But when each of
them was answered with a success, the last one gave it its name, and no other client can believe
the same. -/

namespace ThriftAsio
open Asio Machine

def Request.name? : Request → Option Bytes
  | .setUserName name => some name
  | _ => none

def TalkServerIf.name? : TalkServerIf → Option Bytes
  | .setUserName name => some name
  | _ => none

def TalkClientIf.confirms : TalkClientIf → Bool
  | .onSetUserNameSucceeded _ => true
  | _ => false

theorem TalkServerIf.request_name? (method : TalkServerIf) :
    method.request.name? = method.name? := by
  cases method <;> rfl

namespace Room

def Event.member : Event → Protocol
  | .joins p => p
  | .leaves p => p
  | .asks p _ => p

def Fresh (events : List Event) : Prop :=
  events.Pairwise fun e e' => ∀ p, e' = .joins p → e.member ≠ p

def namesAsked (p : Protocol) (events : List Event) : List Bytes :=
  (requestsOf p events).filterMap Request.name?

/-- How often a member is told that it has got a name. -/
noncomputable def confirmed (p : Protocol) (events : List Event) : Nat :=
  (collect step (fun room e => room.told p e) empty events).count (.call .onSetUserNameSucceeded)

variable {events : List Event} {e : Event} {p q : Protocol}

theorem requestsOf_concat (p : Protocol) (events : List Event) (e : Event) :
    requestsOf p (events ++ [e]) = requestsOf p events ++ (e.request? p).toList := by
  rw [requestsOf, List.filterMap_append, ← requestsOf]
  cases asked : e.request? p with
  | none => rw [List.filterMap_cons_none asked, List.filterMap_nil, Option.toList_none]
  | some r => rw [List.filterMap_cons_some asked, List.filterMap_nil, Option.toList_some]

theorem namesAsked_concat (p : Protocol) (events : List Event) (e : Event) :
    namesAsked p (events ++ [e]) =
      namesAsked p events ++ ((e.request? p).bind Request.name?).toList := by
  rw [namesAsked, requestsOf_concat, List.filterMap_append, ← namesAsked]
  cases e.request? p with
  | none => rfl
  | some r => cases h : r.name? <;> simp [h]

theorem confirmed_concat (p : Protocol) (events : List Event) (e : Event) :
    confirmed p (events ++ [e]) = confirmed p events +
      ((run step empty events).told p e).count (.call .onSetUserNameSucceeded) := by
  rw [confirmed, collect_append, List.count_append, collect, collect, List.append_nil, confirmed]

theorem namesAsked_stranger (unknown : ∀ e ∈ events, e.member ≠ p) :
    namesAsked p events = [] := by
  have nothing : requestsOf p events = [] := by
    refine List.filterMap_eq_nil_iff.mpr fun e mem => ?_
    cases e with
    | asks q r => exact if_neg (unknown _ mem)
    | _ => rfl
  rw [namesAsked, nothing, List.filterMap_nil]

theorem told_success (room : Room) (q : Protocol)
    (other : ∀ name, e = .asks q (.setUserName name) → room.Taken name) :
    (room.told q e).count (.call .onSetUserNameSucceeded) = 0 := by
  refine List.count_eq_zero.mpr fun mem => ?_
  cases e with
  | asks p r =>
    cases r with
    | setUserName name =>
      simp only [told] at mem
      split at mem
      · simp at mem
      · rename_i free
        obtain ⟨rfl, -⟩ := List.mem_ite_nil_right.mp mem
        exact free (other name rfl)
    | refused => cases mem
    | _ => simp [told] at mem
  | _ => cases mem

/-- What the requests for names and the answers to them say about the names of the members. -/
structure Named (events : List Event) : Prop where
  answered : ∀ p, confirmed p events ≤ (namesAsked p events).length
  last : ∀ p name, run step empty events p = some name →
    confirmed p events = (namesAsked p events).length → name = (namesAsked p events).getLastD []
  alone : ∀ p q name, p ≠ q → run step empty events p = some name →
    run step empty events q = some name → confirmed p events = 0 ∨ confirmed q events = 0

theorem Named.other (ok : Named events) (silent : ∀ p, (e.request? p).bind Request.name? = none)
    (names : ∀ p name, step (run step empty events) e p = some name →
      run step empty events p = some name ∨ name = [] ∧ namesAsked p events = []) :
    Named (events ++ [e]) := by
  have asked : ∀ p, namesAsked p (events ++ [e]) = namesAsked p events := by
    intro p
    rw [namesAsked_concat, silent, Option.toList_none, List.append_nil]
  have same : ∀ p, confirmed p (events ++ [e]) = confirmed p events := by
    intro p
    rw [confirmed_concat, told_success _ p, Nat.add_zero]
    rintro name rfl
    have nothing := silent p
    simp [Event.request?, Request.name?] at nothing
  have never : ∀ p, namesAsked p events = [] → confirmed p events = 0 := by
    intro p nothing
    have bound := ok.answered p
    rwa [nothing, List.length_nil, Nat.le_zero] at bound
  refine ⟨fun p => ?_, fun p name h all => ?_, fun p q name different hp hq => ?_⟩
  · rw [asked, same]
    exact ok.answered p
  · rw [asked, same] at all
    rw [run_concat] at h
    rw [asked]
    rcases names p name h with old | ⟨rfl, nothing⟩
    · exact ok.last p name old all
    · rw [nothing]
      rfl
  · rw [run_concat] at hp hq
    rw [same, same]
    rcases names p name hp with hp | ⟨-, nothing⟩
    · rcases names q name hq with hq | ⟨-, nothing⟩
      · exact ok.alone p q name different hp hq
      · exact .inr (never q nothing)
    · exact .inl (never p nothing)

theorem namesAsked_asks (p r : Protocol) (name : Bytes) :
    namesAsked p (events ++ [.asks r (.setUserName name)]) =
      namesAsked p events ++ if r = p then [name] else [] := by
  rw [namesAsked_concat, Event.request?]
  split <;> rfl

theorem Named.refused (ok : Named events) {r : Protocol} {name : Bytes}
    (taken : (run step empty events).Taken name) :
    Named (events ++ [.asks r (.setUserName name)]) := by
  have room : run step empty (events ++ [.asks r (.setUserName name)]) = run step empty events := by
    rw [run_concat, step, if_pos taken]
  have same : ∀ p, confirmed p (events ++ [.asks r (.setUserName name)]) = confirmed p events := by
    intro p
    rw [confirmed_concat, told_success _ p, Nat.add_zero]
    rintro name' same
    exact Request.setUserName.inj (Event.asks.inj same).2 ▸ taken
  refine ⟨fun p => ?_, fun p name' h all => ?_, fun p q name' different hp hq => ?_⟩
  · rw [same, namesAsked_asks, List.length_append]
    exact (ok.answered p).trans (Nat.le_add_right _ _)
  · rw [room] at h
    rw [same, namesAsked_asks] at all
    rw [namesAsked_asks]
    by_cases own : r = p
    · have bound := ok.answered p
      rw [if_pos own, List.length_append, List.length_singleton] at all
      omega
    · rw [if_neg own, List.append_nil] at all ⊢
      exact ok.last p name' h all
  · rw [room] at hp hq
    rw [same, same]
    exact ok.alone p q name' different hp hq

theorem Named.takes (ok : Named events) {r : Protocol} {name : Bytes}
    (free : ¬ (run step empty events).Taken name) :
    Named (events ++ [.asks r (.setUserName name)]) := by
  have room : ∀ p, run step empty (events ++ [.asks r (.setUserName name)]) p =
      if p = r then some name else run step empty events p := by
    intro p
    rw [run_concat, step, if_neg free, Function.update_apply]
  have counted : ∀ p, confirmed p (events ++ [.asks r (.setUserName name)]) =
      confirmed p events + if p = r then 1 else 0 := by
    intro p
    rw [confirmed_concat, told, if_neg free]
    split
    · rw [List.count_singleton_self]
    · rfl
  refine ⟨fun p => ?_, fun p name' h all => ?_, fun p q name' different hp hq => ?_⟩
  · rw [counted, namesAsked_asks, List.length_append]
    have bound := ok.answered p
    by_cases own : r = p
    · rw [if_pos own, if_pos own.symm]
      exact Nat.succ_le_succ bound
    · rw [if_neg own, if_neg (Ne.symm own)]
      exact bound
  · rw [room] at h
    rw [counted, namesAsked_asks] at all
    rw [namesAsked_asks]
    by_cases own : r = p
    · rw [if_pos own.symm] at h
      rw [if_pos own, List.getLastD_concat]
      exact (Option.some.inj h).symm
    · rw [if_neg (Ne.symm own)] at h all
      rw [if_neg own, List.append_nil] at all ⊢
      exact ok.last p name' h all
  · -- a name that was free has no other holder
    rw [room] at hp hq
    rw [counted, counted]
    by_cases first : p = r
    · rw [if_pos first] at hp
      rw [if_neg fun second => different (first.trans second.symm), ← hp] at hq
      exact absurd ⟨q, hq⟩ free
    · rw [if_neg first] at hp ⊢
      by_cases second : q = r
      · rw [if_pos second, ← hp] at hq
        exact absurd ⟨p, hq.symm⟩ free
      · rw [if_neg second] at hq ⊢
        exact ok.alone p q name' different hp hq

theorem Named.concat (ok : Named events)
    (fresh : ∀ p, e = .joins p → ∀ e' ∈ events, e'.member ≠ p) : Named (events ++ [e]) := by
  cases e with
  | joins r =>
    refine ok.other (fun p => rfl) fun p name h => ?_
    by_cases same : p = r
    · subst same
      rw [step, Function.update_self] at h
      exact .inr ⟨(Option.some.inj h).symm, namesAsked_stranger (fresh p rfl)⟩
    · rw [step, Function.update_of_ne same] at h
      exact .inl h
  | leaves r =>
    refine ok.other (fun p => rfl) fun p name h => .inl ?_
    by_cases same : p = r
    · subst same
      rw [step, Function.update_self] at h
      cases h
    · rwa [step, Function.update_of_ne same] at h
  | asks r request =>
    cases request with
    | setUserName name =>
      by_cases taken : (run step empty events).Taken name
      · exact ok.refused taken
      · exact ok.takes taken
    | _ =>
      refine ok.other (fun p => ?_) fun p name h => .inl h
      simp only [Event.request?]
      split <;> rfl

theorem named_of_fresh (fresh : Fresh events) : Named events := by
  induction events using List.reverseRecOn with
  | nil =>
    exact ⟨fun p => Nat.le_refl _, fun p name h => (by cases h), fun p q name _ h => by cases h⟩
  | append_singleton events e ih =>
    obtain ⟨before, -, last⟩ := List.pairwise_append.mp fresh
    exact (ih before).concat fun p joins e' mem => last e' mem e List.mem_cons_self p joins

end Room

namespace Chains

variable {T : Thrift} {a b : Chains}

/-- In the order of the log, nothing happens in the room on a connection before it is there. -/
structure Ordered (T : Thrift) (a : Chains) : Prop where
  unknown : ∀ p, a.links p = none → ∀ e ∈ roomEvents T a.log, e.member ≠ p
  fresh : Room.Fresh (roomEvents T a.log)

theorem Ordered.same (ok : a.Ordered T) (events : roomEvents T b.log = roomEvents T a.log)
    (links : ∀ p, b.links p = none → a.links p = none) : b.Ordered T := by
  refine ⟨fun p absent => ?_, ?_⟩
  · rw [events]
    exact ok.unknown p (links p absent)
  · rw [events]
    exact ok.fresh

theorem Ordered.append (ok : a.Ordered T) {more : List Call} (log : b.log = a.log ++ more)
    {e : Room.Event} (event : roomEvents T more = [e])
    (links : ∀ p, b.links p = none → a.links p = none) (there : b.links e.member ≠ none)
    (joins : ∀ p, e = .joins p → a.links p = none) : b.Ordered T := by
  have events : roomEvents T b.log = roomEvents T a.log ++ [e] := by
    rw [log, roomEvents, List.filterMap_append, ← roomEvents, ← roomEvents, event]
  refine ⟨fun p absent e' mem => ?_, ?_⟩
  · rw [events, List.mem_append, List.mem_singleton] at mem
    rcases mem with old | rfl
    · exact ok.unknown p (links p absent) e' old
    · rintro rfl
      exact there absent
  · rw [events]
    refine List.pairwise_append.mpr ⟨ok.fresh, List.pairwise_singleton _ _, ?_⟩
    intro e' old e'' new p same
    obtain rfl := List.mem_singleton.mp new
    exact ok.unknown p (joins p same) e' old

theorem links_setLink {p q : Protocol} {l : Link} (absent : (a.setLink p l).links q = none) :
    a.links q = none := by
  by_cases same : q = p
  · subst same
    simp [setLink] at absent
  · simpa [setLink, Function.update_of_ne same] using absent

theorem Ordered.step {i : Option Input} (ok : a.Ordered T) (h : Step T i a b) : b.Ordered T := by
  cases h with
  | stutter => exact ok
  | served link read decoded served next =>
    exact ok.append rfl (roomEvents_serving a _ decoded _) (fun q => links_setLink)
      (by simp [setLink, Room.Event.member]) fun q same => by cases same
  | accepted fresh made =>
    refine ok.append rfl rfl (fun q => links_setLink) (by simp [setLink, Room.Event.member]) ?_
    rintro q ⟨⟩
    exact fresh
  | disconnected link failed erased =>
    exact ok.append rfl rfl (fun q => links_setLink) (by simp [setLink, Room.Event.member])
      fun q same => by cases same
  | _ => exact ok.same rfl fun q => links_setLink

end Chains

namespace Server

variable {T : Thrift} {s : Server}

theorem Valid.threw_ordered (valid : s.Valid) (ok : s.chains.Ordered T) {e : Event}
    (broken : ¬ s.Returns T e) : (s.step T e).chains.Ordered T := by
  obtain ⟨events, -⟩ := valid.threw_silent broken
  obtain ⟨p, i, payload, rfl, h, broken⟩ := not_returns broken
  obtain ⟨-, -, arrived⟩ := valid.thrown h broken
  refine ok.same events fun q absent => ?_
  have same := arrived q
  simp only [chains, Option.map_eq_none_iff] at absent
  rw [absent, Option.map_none, eq_comm, Option.map_eq_none_iff] at same
  simp [chains, same]

theorem ordered_step (valid : s.fault = none → s.Valid) (ok : s.chains.Ordered T) (e : Event) :
    (s.step T e).chains.Ordered T := by
  by_cases running : s.fault = none
  · by_cases returns : s.Returns T e
    · exact ok.step (step_chains (valid running).sound (valid running).consistent returns).2
    · exact (valid running).threw_ordered ok returns
  · rwa [step_stopped running]

theorem ordered_create : create.chains.Ordered T :=
  ⟨fun _ _ _ mem => absurd mem List.not_mem_nil, List.Pairwise.nil⟩

end Server

namespace Network

variable {N : Wire}

theorem step_server (n : Network) (e : Event) : (n.step N e).server = n.server ∨
    ∃ e', (n.step N e).server = n.server.step N.library.toThrift e' := by
  cases e with
  | server e =>
    simp only [step]
    split
    · exact .inr ⟨e, rfl⟩
    · exact .inl rfl
  | up p k =>
    simp only [step]
    split
    · exact .inr ⟨_, rfl⟩
    · exact .inl rfl
  | _ => exact .inl rfl

theorem server_invariant {I : Server → Prop} (keeps : ∀ s e, I s → I (s.step N.library.toThrift e))
    (start : I Server.create) (clients : Protocol → Option Listener) (es : List Event) :
    I (run (step N) (create clients) es).server := by
  refine run_invariant (I := fun n : Network => I n.server) (fun n e kept => ?_) start es
  rcases n.step_server (N := N) e with same | ⟨e', same⟩
  · rwa [same]
  · rw [same]
    exact keeps _ e' kept

/-- A client whose connection is up at both ends. -/
structure Joined (N : Wire) (n : Network) (p : Protocol) (peer : Peer) : Prop where
  found : n.peers p = some peer
  on : peer.listener.On peer.start
  member : p ∈ n.server.handler.clients
  sends : N.Sends peer.calls
  answers : N.Answers (messagesTo p n.server.log)

end Network

/-- The client knows its name: all its requests for names were answered with a success, and the
last one was for this name. -/
structure Peer.Confirmed (peer : Peer) (name : Bytes) : Prop where
  last : (peer.calls.filterMap TalkServerIf.name?).getLast? = some name
  answered : (peer.listener.invoked.drop peer.start.invoked.length).countP
    TalkClientIf.confirms = (peer.calls.filterMap TalkServerIf.name?).length

/-- No other call of the server's handler looks like a success to a client. -/
def Wire.Confirms (N : Wire) : Prop :=
  ∀ call, (N.method call).confirms = true → call = .onSetUserNameSucceeded

namespace Network

variable {N : Wire} {n : Network} {p : Protocol} {peer : Peer} {name : Bytes}

theorem Joined.heard_le (joined : n.Joined N p peer) (coherent : n.Coherent N) (laws : N.Lawful)
    (confirms : N.Confirms) :
    (peer.listener.invoked.drop peer.start.invoked.length).countP TalkClientIf.confirms ≤
      Room.confirmed p (roomEvents N.library.toThrift n.server.log) := by
  obtain ⟨all, heard, told, begins, invoked, -⟩ :=
    (coherent.peers p peer joined.found).hears coherent.server laws joined.on joined.sends
      joined.answers
  have room : messagesTo p n.server.log = _ := coherent.server.room.told p
  calc (peer.listener.invoked.drop peer.start.invoked.length).countP TalkClientIf.confirms
      = heard.countP (TalkClientIf.confirms ∘ N.method) := by
        rw [invoked, List.drop_left, List.countP_map]
    _ ≤ heard.countP (· == .onSetUserNameSucceeded) :=
        List.countP_mono_left fun call _ success => beq_iff_eq.mpr (confirms call success)
    _ ≤ all.countP (· == .onSetUserNameSucceeded) := begins.sublist.countP_le
    _ = (all.map OutMessage.call).count (.call .onSetUserNameSucceeded) := by
        rw [List.count, List.countP_map]
        exact List.countP_congr fun call _ => by simp
    _ = Room.confirmed p (roomEvents N.library.toThrift n.server.log) := by
        rw [← told, room, Room.confirmed]
        rfl

theorem Joined.asked_begins (joined : n.Joined N p peer) (coherent : n.Coherent N)
    (laws : N.Lawful) : Room.namesAsked p (roomEvents N.library.toThrift n.server.log) <+:
      peer.calls.filterMap TalkServerIf.name? := by
  have asks := coherent.server.asks laws joined.sends (coherent.peers p peer joined.found).asked
  have names := asks.filterMap Request.name?
  rwa [List.filterMap_map, Function.comp_def, funext TalkServerIf.request_name?] at names

theorem Joined.knows (joined : n.Joined N p peer) (coherent : n.Coherent N) (laws : N.Lawful)
    (confirms : N.Confirms) (named : Room.Named (roomEvents N.library.toThrift n.server.log))
    (confirmed : peer.Confirmed name) : n.server.handler.nameOf p = some name ∧
      0 < Room.confirmed p (roomEvents N.library.toThrift n.server.log) := by
  have heard := joined.heard_le coherent laws confirms
  have begins := joined.asked_begins coherent laws
  have answered := named.answered p
  have bound := begins.length_le
  have count := confirmed.answered
  have same : Room.namesAsked p (roomEvents N.library.toThrift n.server.log) =
      peer.calls.filterMap TalkServerIf.name? := begins.eq_of_length (by omega)
  have some_name : 0 < (peer.calls.filterMap TalkServerIf.name?).length := by
    refine List.length_pos_iff.mpr fun nothing => ?_
    have last := confirmed.last
    rw [nothing] at last
    cases last
  obtain ⟨current, hcurrent⟩ : ∃ current, n.server.handler.nameOf p = some current := by
    obtain ⟨c, hc⟩ : ∃ c, n.server.handler.clients[p]? = some c :=
      ⟨_, Std.ExtTreeMap.getElem?_eq_some_getElem joined.member⟩
    exact ⟨_, Handler.nameOf_eq_some.mpr ⟨c, hc, rfl⟩⟩
  have members : run Room.step Room.empty (roomEvents N.library.toThrift n.server.log) =
      n.server.handler.nameOf := coherent.server.room.members
  refine ⟨?_, by omega⟩
  have latest := named.last p current (by rw [members, hcurrent]) (by rw [same]; omega)
  rw [same, List.getLastD_eq_getLast?, confirmed.last, Option.getD_some] at latest
  rw [hcurrent, latest]

/-- The clients agree on names with the server and with each other. In every run, what a client
knows to be its name is the name that the server has for it, and no two clients know the same. -/
theorem names_agree (N : Wire) (laws : N.Lawful) (confirms : N.Confirms)
    (clients : Protocol → Option Listener) (connected : ∀ p l, clients p = some l → l.Connected)
    (es : List Event) :
    let n := run (step N) (create clients) es
    ∀ p peer name, n.Joined N p peer → peer.Confirmed name →
      n.server.handler.nameOf p = some name ∧
        ∀ q other, n.Joined N q other → other.Confirmed name → q = p := by
  intro n p peer name joined confirmed
  have coherent : n.Coherent N :=
    run_invariant (fun _ e kept => kept.step laws e) (coherent_create connected) es
  have ordered := server_invariant (N := N)
    (I := fun s => (s.fault = none → s.Valid) ∧ s.chains.Ordered N.library.toThrift)
    (fun s e kept => ⟨fun after => Server.valid_of_running kept.1 after,
      Server.ordered_step kept.1 kept.2 e⟩)
    ⟨fun _ => Server.valid_create, Server.ordered_create⟩ clients es
  have named : Room.Named (roomEvents N.library.toThrift n.server.log) :=
    Room.named_of_fresh ordered.2.fresh
  obtain ⟨own, success⟩ := joined.knows coherent laws confirms named confirmed
  refine ⟨own, fun q other joined' confirmed' => ?_⟩
  obtain ⟨own', success'⟩ := joined'.knows coherent laws confirms named confirmed'
  have members : run Room.step Room.empty (roomEvents N.library.toThrift n.server.log) =
      n.server.handler.nameOf := coherent.server.room.members
  by_contra different
  rcases named.alone q p name different (by rw [members, own']) (by rw [members, own])
    with never | never <;> omega

theorem binaryWire_confirms : binaryWire.Confirms := by
  intro call success
  cases call <;> first | rfl | cases success

def naming (p : Protocol) (name : Bytes) : List Event :=
  [.call p (.setUserName name), .up p 100, .server (.finish p 0 (.ok ())), .server (.run p 0),
    .server (.finish p 0 (.ok ())), .server (.run p 0), .down p 0 100, .client p (.run 0),
    .client p .update, .client p .read, .client p .read]

def twoNames : List Event :=
  [.server (.finishAccept 0 (.ok ())), .server (.runAccept 0 7),
    .server (.finishAccept 0 (.ok ())), .server (.runAccept 0 8)] ++ naming 8 [98] ++ naming 7 [97]

theorem joined_named (n : Network) (p : Protocol) (name : Bytes) (heard : List TalkClientIf)
    (size : SizeFits name)
    (short : (binaryWire.writer.talkServerClient (.setUserName name)).length < 2 ^ 32)
    (state : (n.peers p).any (fun peer => decide (peer.listener.On peer.start ∧
      peer.calls = [.setUserName name] ∧
      peer.listener.invoked.drop peer.start.invoked.length = heard ∧
      p ∈ n.server.handler.clients)) = true)
    (told : messagesTo p n.server.log = [.call .onSetUserNameSucceeded]) :
    ∃ peer, n.Joined binaryWire p peer ∧ peer.calls = [.setUserName name] ∧
      peer.listener.invoked.drop peer.start.invoked.length = heard := by
  obtain ⟨peer, found, holds⟩ := (Option.any_eq_true ..).mp state
  obtain ⟨on, calls, invoked, member⟩ := of_decide_eq_true holds
  refine ⟨peer, ⟨found, on, member, fun m hm => ?_, fun call hcall => ?_⟩, calls, invoked⟩
  · rw [calls] at hm
    obtain rfl := List.mem_singleton.mp hm
    exact ⟨size, short⟩
  · rw [told] at hcall
    obtain rfl := OutMessage.call.inj (List.mem_singleton.mp hcall)
    exact ⟨(by decide : IsI64 0), by decide +kernel⟩

theorem confirmed_named {peer : Peer} {name : Bytes} (calls : peer.calls = [.setUserName name])
    (heard : peer.listener.invoked.drop peer.start.invoked.length = [.onSetUserNameSucceeded 0]) :
    peer.Confirmed name := by
  refine ⟨?_, ?_⟩
  · rw [calls]
    rfl
  · rw [calls, heard]
    rfl

theorem names_agree_two :
    let n := run (step binaryWire) (create twoPeers) twoNames
    n.server.handler.nameOf 7 = some [97] ∧
      ∃ other, n.Joined binaryWire 8 other ∧ other.Confirmed [98] ∧ ¬ other.Confirmed [97] := by
  intro n
  obtain ⟨peer, joined, calls, heard⟩ := joined_named n 7 [97] [.onSetUserNameSucceeded 0]
    (by decide) (by decide +kernel) (by decide +kernel) (by decide +kernel)
  obtain ⟨other, joined', calls', heard'⟩ := joined_named n 8 [98] [.onSetUserNameSucceeded 0]
    (by decide) (by decide +kernel) (by decide +kernel) (by decide +kernel)
  have confirmed : peer.Confirmed [97] := confirmed_named calls heard
  have confirmed' : other.Confirmed [98] := confirmed_named calls' heard'
  obtain ⟨own, alone⟩ := names_agree binaryWire binaryWire_lawful binaryWire_confirms twoPeers
    connected_twoPeers twoNames 7 peer [97] joined confirmed
  refine ⟨own, other, joined', confirmed', fun same => ?_⟩
  exact absurd (alone 8 other joined' same) (by decide)

end Network

end ThriftAsio
