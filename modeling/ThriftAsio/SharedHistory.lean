import ThriftAsio.Agreement

/-! Posting over the whole system. The posts of a run stand in the one order in which the room has
them. Whatever a client has been shown by now is what reaches it of some beginning of them, so of
two clients one is never ahead of the other in one place and behind it in another. -/

namespace ThriftAsio
open Asio Machine

def Request.ship? : Request → Option Ship
  | .postShip _ ship => some ship
  | _ => none

def TalkServerIf.ship? : TalkServerIf → Option Ship
  | .postShip _ ship => some ship
  | _ => none

def ClientCall.shown? : ClientCall → Option (Bytes × Ship)
  | .onSubscribeShip name ship => some (name, ship)
  | _ => none

def TalkClientIf.shown? : TalkClientIf → Option (Bytes × Ship)
  | .onSubscribeShip name ship => some (name, ship)
  | _ => none

def OutMessage.shown? : OutMessage → Option (Bytes × Ship)
  | .call c => c.shown?
  | .unknownMethod _ _ _ => none

theorem TalkServerIf.request_ship? (method : TalkServerIf) :
    method.request.ship? = method.ship? := by
  cases method <;> rfl

namespace Room

/-- A post, and the room as it was then. -/
structure Post where
  poster : Protocol
  ship : Ship
  room : Room

def Post.userName (x : Post) : Bytes := (x.room x.poster).getD []

def Post.shownTo (q : Protocol) (x : Post) : Option (Bytes × Ship) :=
  if (x.room q).isSome ∧ q ≠ x.poster then some (x.userName, x.ship) else none

def Event.post (room : Room) : Event → List Post
  | .asks p (.postShip _ ship) => [⟨p, ship, room⟩]
  | _ => []

noncomputable def posts (events : List Event) : List Post := collect step Event.post empty events

variable {events : List Event} {e : Event} {room : Room} {p q : Protocol} {name : Bytes}

theorem told_shown (room : Room) (q : Protocol) (e : Event) :
    (room.told q e).filterMap OutMessage.shown? = (e.post room).filterMap (Post.shownTo q) := by
  cases e with
  | asks p r =>
    cases r with
    | postShip channel ship =>
      by_cases reached : (room q).isSome ∧ q ≠ p <;>
        simp [told, Event.post, Post.shownTo, Post.userName, OutMessage.shown?, ClientCall.shown?,
          reached]
    | setUserName name =>
      simp only [told, Event.post]
      split <;> split <;> rfl
    | refused => rfl
    | _ =>
      simp only [told, Event.post]
      split <;> rfl
  | _ => rfl

theorem shown_eq (q : Protocol) (events : List Event) :
    (collect step (fun room e => room.told q e) empty events).filterMap OutMessage.shown? =
      (posts events).filterMap (Post.shownTo q) := by
  rw [posts, collect_filterMap, collect_filterMap]
  simp only [told_shown]

theorem posts_append (events more : List Event) :
    posts events <+: posts (events ++ more) := by
  rw [posts, posts, collect_append]
  exact List.prefix_append _ _

theorem posts_concat (events : List Event) (e : Event) :
    posts (events ++ [e]) = posts events ++ e.post (run step empty events) := by
  rw [posts, collect_append, collect, collect, List.append_nil, posts]

theorem posted_eq (p : Protocol) (events : List Event) :
    ((posts events).filter (·.poster = p)).map Post.ship =
      (requestsOf p events).filterMap Request.ship? := by
  induction events using List.reverseRecOn with
  | nil => rfl
  | append_singleton events e ih =>
    rw [posts_concat, List.filter_append, List.map_append, ih, requestsOf_concat,
      List.filterMap_append]
    congr 1
    cases e with
    | asks q r => by_cases same : q = p <;> cases r <;> simp [Event.post, Event.request?,
        Request.ship?, same]
    | _ => rfl

theorem step_named (nonempty : name ≠ []) (named : step room e p = some name) :
    room p = some name ∨ e = .asks p (.setUserName name) ∧ ¬ room.Taken name := by
  cases e with
  | joins r =>
    simp only [step, Function.update_apply] at named
    split at named
    · exact absurd (Option.some.inj named).symm nonempty
    · exact .inl named
  | leaves r =>
    simp only [step, Function.update_apply] at named
    split at named
    · cases named
    · exact .inl named
  | asks r request =>
    cases request with
    | setUserName name' =>
      simp only [step] at named
      split at named
      · exact .inl named
      · rename_i free
        rw [Function.update_apply] at named
        split at named
        · rename_i same
          obtain rfl := Option.some.inj named
          exact .inr ⟨by rw [same], free⟩
        · exact .inl named
    | _ => exact .inl named

theorem name_asked (nonempty : name ≠ []) (named : run step empty events p = some name) :
    name ∈ namesAsked p events := by
  induction events using List.reverseRecOn with
  | nil => cases named
  | append_singleton events e ih =>
    rw [run_concat] at named
    rcases step_named nonempty named with before | ⟨rfl, -⟩
    · rw [namesAsked_concat]
      exact List.mem_append_left _ (ih before)
    · rw [namesAsked_asks, if_pos rfl]
      exact List.mem_append_right _ List.mem_cons_self

theorem name_alone (nonempty : name ≠ []) (hp : run step empty events p = some name)
    (hq : run step empty events q = some name) : q = p := by
  induction events using List.reverseRecOn with
  | nil => cases hp
  | append_singleton events e ih =>
    rw [run_concat] at hp hq
    rcases step_named nonempty hp with old | ⟨same, free⟩
    · rcases step_named nonempty hq with old' | ⟨-, free⟩
      · exact ih old old'
      · exact absurd ⟨p, old⟩ free
    · rcases step_named nonempty hq with old' | ⟨same', -⟩
      · exact absurd ⟨q, old'⟩ free
      · exact (Event.asks.inj (same'.symm.trans same)).1

theorem post_signed {x : Post} (mem : x ∈ posts events) (signed : x.userName ≠ []) :
    x.userName ∈ namesAsked x.poster events ∧
      ∀ q, x.room q = some x.userName → q = x.poster := by
  obtain ⟨before, e, after, rfl, posted⟩ := exists_of_mem_collect mem
  have room : x.room = run step empty before := by
    cases e with
    | asks p r =>
      cases r <;> first
        | exact (congrArg Post.room (List.mem_singleton.mp posted)).trans rfl
        | cases posted
    | _ => cases posted
  have named : run step empty before x.poster = some x.userName := by
    rw [← room]
    cases h : x.room x.poster with
    | none => exact absurd (by rw [Post.userName, h]; rfl) signed
    | some name => rw [Post.userName, h, Option.getD_some]
  refine ⟨?_, fun q other => ?_⟩
  · rw [namesAsked, requestsOf, List.filterMap_append, List.filterMap_append]
    exact List.mem_append_left _ (name_asked signed named)
  · rw [room] at other
    exact name_alone signed named other

end Room

def Peer.shown (peer : Peer) : List (Bytes × Ship) :=
  (peer.listener.invoked.drop peer.start.invoked.length).filterMap TalkClientIf.shown?

/-- The client is shown the ships that the server's handler shows it. -/
def Wire.Shows (N : Wire) : Prop := ∀ call, (N.method call).shown? = call.shown?

namespace Network

variable {N : Wire} {n : Network} {p : Protocol} {peer : Peer}

noncomputable def history (N : Wire) (n : Network) : List Room.Post :=
  Room.posts (roomEvents N.library.toThrift n.server.log)

/-- A client and the posts of the run. -/
structure Follows (N : Wire) (n : Network) (p : Protocol) (peer : Peer) : Prop where
  /-- Its own posts are the first ships that were posted by calls on it. -/
  posted : ((n.history N).filter (·.poster = p)).map Room.Post.ship <+:
    peer.calls.filterMap TalkServerIf.ship?
  /-- They go under no name, or under one that it has asked for and that nobody else has. -/
  signed : ∀ x ∈ n.history N, x.poster = p → x.userName ≠ [] →
    .setUserName x.userName ∈ peer.calls ∧ ∀ q, x.room q = some x.userName → q = p
  /-- It has seen some beginning of all posts. -/
  saw : ∃ seen, seen <+: n.history N ∧ peer.shown = seen.filterMap (Room.Post.shownTo p)
  /-- At rest there is nothing that it has not posted, and nothing that it has not seen. -/
  rest : ∀ c, n.server.connections p = some c → n.AtRest peer c →
    ((n.history N).filter (·.poster = p)).map Room.Post.ship =
        peer.calls.filterMap TalkServerIf.ship? ∧
      peer.shown = (n.history N).filterMap (Room.Post.shownTo p)

theorem shown_begins (coherent : n.Coherent N) (laws : N.Lawful) (shows : N.Shows)
    (found : n.peers p = some peer) (on : peer.listener.On peer.start)
    (sends : N.Sends peer.calls) (answers : N.Answers (messagesTo p n.server.log)) :
    peer.shown <+: (n.history N).filterMap (Room.Post.shownTo p) ∧
      ∀ c, n.server.connections p = some c → n.AtRest peer c →
        peer.shown = (n.history N).filterMap (Room.Post.shownTo p) := by
  obtain ⟨all, heard, told, begins, invoked, whole⟩ :=
    (coherent.peers p peer found).hears coherent.server laws on sends answers
  have shown : peer.shown = heard.filterMap ClientCall.shown? := by
    rw [Peer.shown, invoked, List.drop_left, List.filterMap_map]
    exact List.filterMap_congr fun call _ => shows call
  have room : messagesTo p n.server.log = _ := coherent.server.room.told p
  have reached : all.filterMap ClientCall.shown? =
      (n.history N).filterMap (Room.Post.shownTo p) := by
    rw [history, ← Room.shown_eq]
    refine Eq.trans ?_ (congrArg (List.filterMap OutMessage.shown?) room)
    rw [told, List.filterMap_map]
    rfl
  rw [shown, ← reached]
  exact ⟨begins.filterMap _, fun c hc rest => by rw [whole c hc rest]⟩

theorem history_grows (coherent : n.Coherent N) (laws : N.Lawful) (more : List Event) :
    n.history N <+: (run (step N) n more).history N := by
  have kept : (run (step N) n more).Coherent N ∧
      n.server.log <+: (run (step N) n more).server.log := by
    refine run_invariant (I := fun n' : Network => n'.Coherent N ∧ n.server.log <+: n'.server.log)
      (fun n' e ⟨coherent, longer⟩ => ⟨coherent.step laws e, ?_⟩) ⟨coherent, List.prefix_rfl⟩ more
    rcases n'.step_server (N := N) e with same | ⟨e', same⟩
    · rwa [same]
    · rw [same]
      exact longer.trans (coherent.server.parsed.log_step e')
  obtain ⟨later, log⟩ := kept.2
  rw [history, history, ← log, roomEvents, roomEvents, List.filterMap_append]
  exact Room.posts_append _ _

/-- All clients see one history. Its posts are those that were called for, in the order of the
calls of each client, and it only grows; what a client was shown at any time is what reaches it of
a beginning of the history, and this is all of it once nothing is under way. -/
theorem one_history (N : Wire) (laws : N.Lawful) (shows : N.Shows)
    (clients : Protocol → Option Listener) (connected : ∀ p l, clients p = some l → l.Connected)
    (es more : List Event) :
    let n := run (step N) (create clients) es
    n.history N <+: (run (step N) n more).history N ∧
      ∀ p peer, n.peers p = some peer → peer.listener.On peer.start → N.Sends peer.calls →
        N.Answers (messagesTo p n.server.log) → n.Follows N p peer := by
  intro n
  have coherent : n.Coherent N :=
    run_invariant (fun _ e kept => kept.step laws e) (coherent_create connected) es
  refine ⟨history_grows coherent laws more, fun p peer found on sends answers => ?_⟩
  have linked := coherent.peers p peer found
  have asks := coherent.server.asks laws sends linked.asked
  have ships : (peer.calls.map TalkServerIf.request).filterMap Request.ship? =
      peer.calls.filterMap TalkServerIf.ship? := by
    rw [List.filterMap_map, Function.comp_def, funext TalkServerIf.request_ship?]
  obtain ⟨begins, whole⟩ := shown_begins coherent laws shows found on sends answers
  refine ⟨?_, fun x mem poster signed => ?_, List.prefix_filterMap_iff.mp begins,
    fun c hc rest => ⟨?_, whole c hc rest⟩⟩
  · rw [history, Room.posted_eq, ← ships]
    exact asks.filterMap _
  · obtain ⟨asked, alone⟩ := Room.post_signed mem signed
    rw [poster] at asked alone
    refine ⟨?_, alone⟩
    have called := (asks.filterMap Request.name?).subset asked
    rw [List.filterMap_map, List.mem_filterMap] at called
    obtain ⟨method, hmethod, named⟩ := called
    cases method with
    | setUserName name =>
      obtain rfl := Option.some.inj named
      exact hmethod
    | _ => cases named
  · rw [history, Room.posted_eq, ← ships, linked.rest_asks coherent.server laws on sends hc rest]

theorem binaryWire_shows : binaryWire.Shows := by
  intro call
  cases call <;> rfl

def namedPosting : List Event :=
  [.server (.finishAccept 0 (.ok ())), .server (.runAccept 0 7),
    .server (.finishAccept 0 (.ok ())), .server (.runAccept 0 8)] ++ naming 8 [98] ++
  [.client 8 (.finish 0 (.ok [])), .client 8 (.run 0), .call 8 (.postShip [35] postedShip),
    .up 8 200, .server (.finish 8 1 (.ok ())), .server (.run 8 1), .server (.finish 8 1 (.ok ())),
    .server (.run 8 1), .down 7 0 100, .client 7 (.run 0), .client 7 .update, .client 7 .read,
    .client 7 .read]

theorem one_history_named :
    let n := run (step binaryWire) (create twoPeers) namedPosting
    ∃ peer, n.peers 7 = some peer ∧ peer.shown = [([98], postedShip)] ∧
      n.Follows binaryWire 7 peer := by
  intro n
  have state : (n.peers 7).any (fun peer => decide (peer.listener.On peer.start ∧
      peer.calls = [] ∧ peer.shown = [([98], postedShip)])) = true := by decide +kernel
  have told : messagesTo 7 n.server.log = [.call (.onSubscribeShip [98] postedShip)] := by
    decide +kernel
  obtain ⟨peer, found, holds⟩ := (Option.any_eq_true ..).mp state
  obtain ⟨on, calls, shown⟩ := of_decide_eq_true holds
  refine ⟨peer, found, shown, (one_history binaryWire binaryWire_lawful binaryWire_shows twoPeers
    connected_twoPeers namedPosting []).2 7 peer found on (fun m hm => ?_) fun call hcall => ?_⟩
  · rw [calls] at hm
    cases hm
  · rw [told] at hcall
    obtain rfl := OutMessage.call.inj (List.mem_singleton.mp hcall)
    exact ⟨⟨by decide, postedShip_fits⟩, by decide +kernel⟩

end Network

end ThriftAsio
