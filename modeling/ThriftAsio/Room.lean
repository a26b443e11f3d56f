import Mathlib.Order.Bounds.Basic
import ThriftAsio.Broadcast

/-! What the server is for: a room whose members have names. They come and go, and what one of
them asks for is told to it or to the others. The server with its sockets, read chains and session
objects is such a room: who is in it and all that it ever writes to anyone can be computed from
the connections and requests in its log. -/

namespace ThriftAsio
open Machine

/-- The members, each with the name it goes by, which is empty at first. -/
abbrev Room := Protocol → Option Bytes

namespace Room

inductive Event where
  | joins (p : Protocol)
  | leaves (p : Protocol)
  | asks (p : Protocol) (r : Request)

def empty : Room := fun _ => none

def Taken (room : Room) (name : Bytes) : Prop := ∃ p, room p = some name

def Holder (room : Room) (name : Bytes) (p : Protocol) : Prop :=
  IsLeast {q | room q = some name} p

open Classical in
/-- Members join without a name, and take a name that is free. -/
noncomputable def step (room : Room) : Event → Room
  | .joins p => Function.update room p (some [])
  | .leaves p => Function.update room p none
  | .asks p (.setUserName name) =>
    if room.Taken name then room else Function.update room p (some name)
  | .asks _ _ => room

open Classical in
/-- What a member is told when another one, or it, asks for something. -/
noncomputable def told (room : Room) (q : Protocol) : Event → List OutMessage
  | .asks p .getVersion => if q = p then [.call (.onGetVersion (bytes "0.0.1"))] else []
  | .asks p (.setUserName name) =>
    if room.Taken name then
      if room.Holder name q then
        [.call (.onSetUserNameFailed (bytes "username already taken"))]
      else []
    else if q = p then [.call .onSetUserNameSucceeded] else []
  | .asks p (.subscribe _) => if q = p then [.call (.onSubscribeSucceeded 123)] else []
  | .asks p (.unsubscribe _) => if q = p then [.call .onUnsubscribeSucceeded] else []
  | .asks p (.postShip _ ship) =>
    if (room q).isSome ∧ q ≠ p then
      [.call (.onSubscribeShip ((room p).getD []) ship)]
    else []
  | .asks p (.unknownMethod fname seqid) =>
    if q = p then
      [.unknownMethod fname seqid (bytes "Invalid method name: '" ++ fname ++ bytes "'")]
    else []
  | .asks _ .refused => []
  | .joins _ => []
  | .leaves _ => []

theorem told_stranger {room : Room} {p q : Protocol} (member : room p ≠ none)
    (stranger : room q = none) (r : Request) : room.told q (.asks p r) = [] := by
  have other : q ≠ p := by
    rintro rfl
    exact member stranger
  cases r with
  | setUserName name =>
    have different : ¬ room.Holder name q := fun holds => by
      have named : room q = some name := holds.1
      rw [stranger] at named
      cases named
    simp [told, other, different]
  | postShip channel ship => simp [told, stranger]
  | _ => simp [told, other]

end Room

def Call.roomEvent (T : Thrift) : Call → Option Room.Event
  | .connected p _ => some (.joins p)
  | .disconnected p => some (.leaves p)
  | .process p payload _ =>
    match T.request payload with
    | .ok r => some (.asks p r)
    | .error _ => none
  | _ => none

def Call.messageTo (q : Protocol) : Call → Option OutMessage
  | .sent p m => if p = q then some m else none
  | _ => none

def roomEvents (T : Thrift) (log : List Call) : List Room.Event :=
  log.filterMap (Call.roomEvent T)

def messagesTo (q : Protocol) (log : List Call) : List OutMessage :=
  log.filterMap (Call.messageTo q)

namespace Handler

variable {h : Handler} {p : Protocol} {c : ClientPtr} {a : Answer}

theorem Wellformed.messagesTo_reply (ok : h.Wellformed) (connected : h.clients[p]? = some c)
    (call : ClientCall) (q : Protocol) :
    messagesTo q ([h.reply c call].map fun m => .sent m.1 m.2) =
      if q = p then [.call call] else [] := by
  have own := ok.own p c connected
  by_cases same : q = p
  · simp [messagesTo, Call.messageTo, reply, own, same]
  · simp [messagesTo, Call.messageTo, reply, own, same, Ne.symm same]

theorem messagesTo_postShip (connected : h.clients[p]? = some c) {channel : Bytes} {ship : Ship}
    (served : h.serve p (.postShip channel ship) = .ok a) (q : Protocol) :
    messagesTo q (a.sent.map fun m => .sent m.1 m.2) =
      (received q (a.sent.map fun m => .sent m.1 m.2)).map fun x =>
        .call (.onSubscribeShip x.1 x.2) := by
  rw [serve_eq connected] at served
  obtain rfl := Except.ok.inj served
  simp only [messagesTo, received, List.map_map, List.filterMap_map, List.map_filterMap]
  refine List.filterMap_congr fun e he => ?_
  by_cases same : (h.sessions e.2).client = q <;>
    simp [Call.messageTo, Call.shipTo, reply, same]

theorem Wellformed.room_setUserName (ok : h.Wellformed) (connected : h.clients[p]? = some c)
    {name : Bytes} (served : h.serve p (.setUserName name) = .ok a) :
    a.handler.nameOf = Room.step h.nameOf (.asks p (.setUserName name)) ∧
      ∀ q, messagesTo q (a.sent.map fun m => .sent m.1 m.2) =
        Room.told h.nameOf q (.asks p (.setUserName name)) := by
  cases found : h.holder name with
  | none =>
    have free : ¬ Room.Taken h.nameOf name := holder_eq_none.mp found
    rw [serve_free connected found] at served
    obtain rfl := Except.ok.inj served
    refine ⟨funext fun q => ?_, fun q => ?_⟩
    · rw [Room.step, if_neg free, Function.update_apply]
      refine ((ok.rename connected name).2 q).trans ?_
      simp only [eq_comm]
    · rw [Room.told, if_neg free]
      exact ok.messagesTo_reply connected _ q
  | some e =>
    obtain ⟨entry, named, first⟩ := holder_eq_some found
    have taken : Room.Taken h.nameOf name := ⟨e.1, named⟩
    have holder : ∀ q, Room.Holder h.nameOf name q ↔ q = e.1 := by
      have least : Room.Holder h.nameOf name e.1 :=
        ⟨named, fun q hq => not_lt.mp fun less => first q less hq⟩
      exact fun q => ⟨fun other => other.unique least, fun same => same ▸ least⟩
    rw [serve_taken connected found] at served
    obtain rfl := Except.ok.inj served
    refine ⟨by rw [Room.step, if_pos taken]; rfl, fun q => ?_⟩
    rw [Room.told, if_pos taken]
    simp only [holder]
    exact ok.messagesTo_reply entry _ q

/-- Serving a request is what happens in the room when a member asks. -/
theorem Wellformed.serve_room (ok : h.Wellformed) {r : Request} (served : h.serve p r = .ok a) :
    a.handler.nameOf = Room.step h.nameOf (.asks p r) ∧
      ∀ q, messagesTo q (a.sent.map fun m => .sent m.1 m.2) =
        Room.told h.nameOf q (.asks p r) := by
  obtain ⟨c, connected, -⟩ := serve_cases served
  have reply := fun call => ok.messagesTo_reply connected call
  cases r with
  | setUserName name => exact ok.room_setUserName connected served
  | postShip channel ship =>
    refine ⟨?_, fun q => ?_⟩
    · rw [serve_eq connected] at served
      obtain rfl := Except.ok.inj served
      rfl
    · have member : q ∈ h.clients ↔ (h.nameOf q).isSome := by
        rw [Std.ExtTreeMap.mem_iff_isSome_getElem?, nameOf, Option.isSome_map]
      rw [messagesTo_postShip connected served, ok.postShip_shown connected served, Room.told]
      simp only [member]
      split <;> rfl
  | refused =>
    rw [serve_eq connected] at served
    obtain rfl := Except.ok.inj served
    exact ⟨rfl, fun q => rfl⟩
  | unknownMethod fname seqid =>
    rw [serve_eq connected] at served
    obtain rfl := Except.ok.inj served
    refine ⟨rfl, fun q => ?_⟩
    by_cases same : q = p
    · simp [messagesTo, Call.messageTo, Room.told, same]
    · simp [messagesTo, Call.messageTo, Room.told, same, Ne.symm same]
  | getVersion =>
    rw [serve_eq connected] at served
    obtain rfl := Except.ok.inj served
    exact ⟨rfl, reply _⟩
  | subscribe topic =>
    rw [serve_eq connected] at served
    obtain rfl := Except.ok.inj served
    exact ⟨rfl, reply _⟩
  | unsubscribe topic =>
    rw [serve_eq connected] at served
    obtain rfl := Except.ok.inj served
    exact ⟨rfl, reply _⟩

end Handler

namespace Chains

variable {T : Thrift} {a b : Chains} {p : Protocol}

/-- The log tells what has happened in the room, and each member has been told just that. -/
structure InRoom (T : Thrift) (a : Chains) : Prop where
  members : run Room.step Room.empty (roomEvents T a.log) = a.handler.nameOf
  told : ∀ q, messagesTo q a.log =
    collect Room.step (fun room e => room.told q e) Room.empty (roomEvents T a.log)

theorem InRoom.append (ok : a.InRoom T) {more : List Call} (log : b.log = a.log ++ more)
    {e : Room.Event} (event : roomEvents T more = [e])
    (members : b.handler.nameOf = Room.step a.handler.nameOf e)
    (told : ∀ q, messagesTo q more = Room.told a.handler.nameOf q e) : b.InRoom T := by
  have events : roomEvents T b.log = roomEvents T a.log ++ [e] := by
    rw [log, roomEvents, List.filterMap_append, ← roomEvents, ← roomEvents, event]
  refine ⟨by rw [events, run_concat, ok.members, members], fun q => ?_⟩
  have both : messagesTo q b.log = messagesTo q a.log ++ messagesTo q more := by
    rw [log, messagesTo, List.filterMap_append, ← messagesTo, ← messagesTo]
  rw [both, events, collect_append, ← ok.told, ok.members, told]
  exact congrArg (_ ++ ·) (List.append_nil _).symm

theorem roomEvents_serving (a : Chains) (p : Protocol) {payload : List UInt8} {request : Request}
    (decoded : T.request payload = .ok request) (answer : Answer) :
    roomEvents T (a.serving p payload answer) = [.asks p request] := by
  have silent : roomEvents T (answer.sent.map fun m => .sent m.1 m.2) = [] := by
    simp [roomEvents, List.filterMap_map, Function.comp_def, Call.roomEvent]
  rw [roomEvents, serving, List.filterMap_append, List.filterMap_append, ← roomEvents,
    ← roomEvents, ← roomEvents, silent]
  simp [roomEvents, List.filterMap_cons, Call.roomEvent, decoded]

theorem messagesTo_serving (a : Chains) (p : Protocol) (payload : List UInt8) (answer : Answer)
    (q : Protocol) : messagesTo q (a.serving p payload answer) =
      messagesTo q (answer.sent.map fun m => .sent m.1 m.2) := by
  rw [messagesTo, serving, List.filterMap_append, List.filterMap_append]
  simp [messagesTo, List.filterMap_cons, Call.messageTo]

theorem InRoom.step {i : Option Input} (ok : a.InRoom T) (consistent : a.Consistent)
    (h : Step T i a b) : b.InRoom T := by
  cases h with
  | served link read decoded served next =>
    obtain ⟨members, told⟩ := consistent.handler.serve_room served
    refine ok.append rfl (roomEvents_serving a _ decoded _) members fun q => ?_
    rw [messagesTo_serving, told]
  | @accepted _ p h fresh made =>
    obtain ⟨-, -, names⟩ := consistent.handler.connected made
    refine ok.append rfl rfl (funext fun q => ?_) fun q => rfl
    rw [Room.step, Function.update_apply, names]
    simp only [eq_comm]
  | @disconnected _ p l link op ec failed h erased =>
    obtain ⟨-, names⟩ := consistent.handler.disconnected erased
    refine ok.append rfl rfl (funext fun q => ?_) fun q => rfl
    rw [Room.step, Function.update_apply, names]
    simp only [eq_comm]
  | _ => exact ⟨ok.members, ok.told⟩

end Chains

namespace Server

variable {T : Thrift} {s : Server}

theorem onFrameData_names {p : Protocol} {payload : List UInt8}
    (connected : p ∈ s.handler.clients) (broken : ¬ T.Decodes payload) :
    (s.onFrameData T p payload).handler.nameOf = s.handler.nameOf := by
  have found : s.handler.clients[p]? = some s.handler.clients[p] :=
    Std.ExtTreeMap.getElem?_eq_some_getElem connected
  cases decoded : T.request payload with
  | ok request => exact absurd ⟨request, decoded⟩ broken
  | error e =>
    simp only [onFrameData, Handler.beforeProcess, found, process, decoded, Option.isSome_some,
      if_true]
    rfl

theorem Valid.threw_silent (valid : s.Valid) {e : Event} (broken : ¬ s.Returns T e) :
    roomEvents T (s.step T e).log = roomEvents T s.log ∧
      ∀ q, messagesTo q (s.step T e).log = messagesTo q s.log := by
  obtain ⟨p, i, payload, rfl, h, broken⟩ := not_returns broken
  obtain ⟨c, handler, current, -, threw⟩ := valid.threw h broken
  have log : (s.step T (.run p i)).log =
      s.log ++ [.beforeProcess p, .process p payload current] := by rw [threw]
  have silent : Call.roomEvent T (.process p payload current) = none := by
    cases decoded : T.request payload with
    | ok request => exact absurd ⟨request, decoded⟩ broken
    | error e => simp only [Call.roomEvent, decoded]
  refine ⟨?_, fun q => ?_⟩
  · rw [log, roomEvents, List.filterMap_append, List.filterMap_cons_none rfl,
      List.filterMap_cons_none silent, List.filterMap_nil, List.append_nil, roomEvents]
  · rw [log, messagesTo, List.filterMap_append]
    simp [messagesTo, List.filterMap_cons, Call.messageTo]

theorem Valid.threw_inRoom (valid : s.Valid) (ok : s.chains.InRoom T) {e : Event}
    (broken : ¬ s.Returns T e) : (s.step T e).chains.InRoom T := by
  obtain ⟨events, messages⟩ := valid.threw_silent broken
  obtain ⟨p, i, payload, rfl, h, broken⟩ := not_returns broken
  obtain ⟨_, _, c, n, ⟨⟩, hc, finished⟩ := payload?_eq_some h
  obtain ⟨-, connected, -⟩ := taken_chains valid.sound valid.consistent hc finished
  have names : (s.step T (.run p i)).handler.nameOf = s.handler.nameOf := by
    rw [step_run valid.sound.running hc finished]
    exact onFrameData_names (s := s.onConnection p (·.onTransport fun _ => c.transport.take i))
      connected broken
  refine ⟨?_, fun q => ?_⟩
  · exact (congrArg (run Room.step Room.empty) events).trans (ok.members.trans names.symm)
  · exact (messages q).trans ((ok.told q).trans (congrArg (collect _ _ _) events.symm))

theorem inRoom_step (valid : s.fault = none → s.Valid) (ok : s.chains.InRoom T) (e : Event) :
    (s.step T e).chains.InRoom T := by
  by_cases running : s.fault = none
  · by_cases returns : s.Returns T e
    · exact ok.step (valid running).consistent
        (step_chains (valid running).sound (valid running).consistent returns).2
    · exact (valid running).threw_inRoom ok returns
  · rwa [step_stopped running]

theorem inRoom_create : create.chains.InRoom T := ⟨funext fun _ => rfl, fun _ => rfl⟩

theorem inRoom_run (T : Thrift) (es : List Event) : (run (step T) create es).chains.InRoom T := by
  have all : ((run (step T) create es).fault = none → (run (step T) create es).Valid) ∧
      (run (step T) create es).chains.InRoom T :=
    run_invariant (I := fun s : Server => (s.fault = none → s.Valid) ∧ s.chains.InRoom T)
      (fun s e kept => ⟨fun after => valid_of_running kept.1 after, inRoom_step kept.1 kept.2 e⟩)
      ⟨fun _ => valid_create, inRoom_create⟩ es
  exact all.2

end Server

end ThriftAsio
