import ThriftAsio.BadFrames

/-! `postShip` shows a ship to everyone but its poster. The posts of a run are listed in the
order in which they are processed, each with what the handler had at that moment; what a
receiver is sent is read off that one list. -/

namespace ThriftAsio
open Proactor Asio Machine

/-- A `postShip` when it is processed. -/
structure Post where
  poster : Protocol
  userName : Bytes
  ship : Ship
  clients : Std.ExtTreeMap Protocol ClientPtr

namespace Post

/-- The receiver was in `clients_`, and is not the poster. -/
def Reaches (r : Protocol) (x : Post) : Prop := r ∈ x.clients ∧ r ≠ x.poster

instance (r : Protocol) : DecidablePred (Reaches r) := fun x =>
  inferInstanceAs (Decidable (r ∈ x.clients ∧ r ≠ x.poster))

def shown (x : Post) : Bytes × Ship := (x.userName, x.ship)

def reaching (r : Protocol) (posts : List Post) : List Post := posts.filter (Reaches r)

def postedBy (p : Protocol) (posts : List Post) : List Post := posts.filter (·.poster = p)

theorem reaching_postedBy (r p : Protocol) (posts : List Post) :
    postedBy p (reaching r posts) = reaching r (postedBy p posts) := by
  simp only [postedBy, reaching, List.filter_filter, Bool.and_comm]

theorem reaching_comm (r r' : Protocol) (posts : List Post) :
    reaching r' (reaching r posts) = reaching r (reaching r' posts) := by
  simp only [reaching, List.filter_filter, Bool.and_comm]

end Post

def Call.shipTo (r : Protocol) : Call → Option (Bytes × Ship)
  | .sent p (.call (.onSubscribeShip name ship)) => if p = r then some (name, ship) else none
  | _ => none

def received (r : Protocol) (log : List Call) : List (Bytes × Ship) :=
  log.filterMap (Call.shipTo r)

theorem filterMap_toList {α β : Type} (t : Std.ExtTreeMap Nat α) (k : Nat) (f : α → Option β) :
    t.toList.filterMap (fun e => if e.1 = k then f e.2 else none) = (t[k]?.bind f).toList := by
  have others : ∀ l : List (Nat × α), (∀ e ∈ l, e.1 ≠ k) →
      l.filterMap (fun e => if e.1 = k then f e.2 else none) = [] := by
    intro l other
    refine List.filterMap_eq_nil_iff.mpr fun e he => if_neg (other e he)
  cases found : t[k]? with
  | none =>
    refine others _ fun e he same => ?_
    rw [Std.ExtTreeMap.mem_toList_iff_getElem?_eq_some, same, found] at he
    cases he
  | some v =>
    have entry := Std.ExtTreeMap.mem_toList_iff_getElem?_eq_some.mpr found
    obtain ⟨before, after, split⟩ := List.append_of_mem entry
    have distinct := Std.ExtTreeMap.distinct_keys_toList (t := t)
    rw [split, List.pairwise_append] at distinct
    obtain ⟨-, later, earlier⟩ := distinct
    have hb : ∀ e ∈ before, e.1 ≠ k := fun e he same =>
      earlier e he (k, v) List.mem_cons_self (by simp [same])
    have ha : ∀ e ∈ after, e.1 ≠ k := fun e he same =>
      List.rel_of_pairwise_cons later he (by simp [same])
    rw [split, List.filterMap_append, List.filterMap_cons, others before hb, others after ha]
    cases shown : f v <;> simp [shown]

namespace Handler

variable {h : Handler} {p : Protocol} {c : ClientPtr} {a : Answer}

theorem Wellformed.postShip_shown (ok : h.Wellformed) (connected : h.clients[p]? = some c)
    {channel : Bytes} {ship : Ship} (served : h.serve p (.postShip channel ship) = .ok a)
    (r : Protocol) :
    received r (a.sent.map fun m => .sent m.1 m.2) =
      if r ∈ h.clients ∧ r ≠ p then [((h.nameOf p).getD [], ship)] else [] := by
  have name : (h.nameOf p).getD [] = (h.sessions c).userName := by simp [nameOf, connected]
  have sent : a.sent = (h.clients.toList.filter fun s => s.2 ≠ c).map fun s =>
      h.reply s.2 (.onSubscribeShip (h.sessions c).userName ship) := by
    rw [serve_eq connected] at served
    obtain rfl := Except.ok.inj served
    rfl
  have entries : received r (a.sent.map fun m => .sent m.1 m.2) = h.clients.toList.filterMap
      fun e => if e.1 = r then
        if e.2 = c then none else some ((h.sessions c).userName, ship) else none := by
    rw [received, sent, List.map_map, List.filterMap_map, List.filterMap_filter]
    refine List.filterMap_congr fun e he => ?_
    have own := ok.own e.1 e.2 (Std.ExtTreeMap.mem_toList_iff_getElem?_eq_some.mp he)
    by_cases poster : e.2 = c <;> simp [poster, reply, Call.shipTo, own]
  rw [entries, filterMap_toList h.clients r fun d =>
    if d = c then none else some ((h.sessions c).userName, ship), name]
  cases found : h.clients[r]? with
  | none =>
    have absent : r ∉ h.clients := by simpa using found
    simp [absent]
  | some d =>
    have present : r ∈ h.clients := by
      rw [Std.ExtTreeMap.mem_iff_isSome_getElem?, found]
      rfl
    by_cases same : r = p
    · subst same
      obtain rfl := Option.some.inj (found.symm.trans connected)
      simp
    · have other : d ≠ c := by
        rintro rfl
        exact same (ok.injective found connected)
      simp [present, same, other]

theorem serve_shows_nothing (connected : h.clients[p]? = some c) {request : Request}
    (other : ∀ channel ship, request ≠ .postShip channel ship)
    (served : h.serve p request = .ok a) (r : Protocol) :
    received r (a.sent.map fun m => .sent m.1 m.2) = [] := by
  rw [serve_eq connected] at served
  cases request with
  | postShip channel ship => exact absurd rfl (other channel ship)
  | setUserName name =>
    cases found : { h with currentClient := some c }.holder name with
    | none =>
      simp only [process, setUserName, found] at served
      obtain rfl := Except.ok.inj served
      rfl
    | some e =>
      simp only [process, setUserName, found] at served
      obtain rfl := Except.ok.inj served
      rfl
  | _ =>
    obtain rfl := Except.ok.inj served
    rfl

end Handler

namespace Thrift

def shipOf (T : Thrift) (payload : List UInt8) : Option Ship :=
  match T.request payload with
  | .ok (.postShip _ ship) => some ship
  | _ => none

end Thrift

namespace Server

variable {T : Thrift} {s : Server} {e : Event}

def Event.post (T : Thrift) (s : Server) : Event → List Post
  | .run p i =>
    if s.fault.isSome then []
    else (((Event.run p i).payload? s).bind T.shipOf).toList.map fun ship =>
      ⟨p, (s.handler.nameOf p).getD [], ship, s.handler.clients⟩
  | _ => []

/-- All posts of a run, in the order in which they are processed. -/
def posts (T : Thrift) (es : List Event) : List Post := collect (step T) (Event.post T) create es

theorem onDisconnected_received (s : Server) (p r : Protocol) :
    received r (s.onDisconnected p).log = received r s.log := by
  unfold onDisconnected
  split
  · rfl
  · simp [received, Call.shipTo]

theorem onAccept_received (s : Server) (p r : Protocol) :
    received r (s.onAccept p).log = received r s.log := by
  unfold onAccept
  split
  · rfl
  · simp [received, Call.shipTo, readFrameSize, onConnection]

theorem quiet_received (quiet : e.payload? s = none) (r : Protocol) :
    received r (s.step T e).log = received r s.log := by
  unfold step
  split
  · rfl
  · cases e with
    | runAccept i p =>
      simp only [act]
      split
      · rfl
      · split
        · exact onAccept_received _ p r
        · exact onAccept_received _ p r
      · rfl
    | run p i =>
      simp only [act]
      split
      · rfl
      · rename_i c found
        split
        · rfl
        · rename_i op result finished
          unfold handle
          split
          · exact onDisconnected_received _ p r
          · rfl
          · simp [Event.payload?, found, finished] at quiet
          · rfl
    | _ => rfl

theorem received_serving (p : Protocol) (payload : List UInt8) (answer : Answer) (r : Protocol) :
    received r (s.chains.serving p payload answer) =
      received r (answer.sent.map fun m => .sent m.1 m.2) := by
  have before : received r [.beforeProcess p, .process p payload s.handler.clients[p]?] = [] :=
    rfl
  have after : received r [.processReturned p, .afterProcess] = [] := rfl
  rw [received, Chains.serving, List.filterMap_append, List.filterMap_append]
  change received r [_, _] ++ received r _ ++ received r [_, _] = _
  rw [after, List.append_nil]
  exact congrArg (· ++ _) before

theorem served_received (ok : s.chains.Consistent) {p : Protocol}
    (connected : p ∈ s.handler.clients) {payload : List UInt8} {request : Request}
    (decoded : T.request payload = .ok request)
    {answer : Answer} (served : s.handler.serve p request = .ok answer) (r : Protocol) :
    received r (s.chains.serving p payload answer) =
      ((T.shipOf payload).toList.map fun ship =>
          (⟨p, (s.handler.nameOf p).getD [], ship, s.handler.clients⟩ : Post)).filterMap
        fun x => if x.Reaches r then some x.shown else none := by
  have found := Std.ExtTreeMap.getElem?_eq_some_getElem connected
  rw [received_serving]
  by_cases posting : ∃ channel ship, request = .postShip channel ship
  · obtain ⟨channel, posted, rfl⟩ := posting
    have ship : T.shipOf payload = some posted := by simp only [Thrift.shipOf, decoded]
    have shown : received r (answer.sent.map fun m => .sent m.1 m.2) =
        if r ∈ s.handler.clients ∧ r ≠ p then [((s.handler.nameOf p).getD [], posted)] else [] :=
      ok.handler.postShip_shown found served r
    rw [shown, ship]
    by_cases reached : r ∈ s.handler.clients ∧ r ≠ p
    · have reaches : Post.Reaches r ⟨p, (s.handler.nameOf p).getD [], posted, s.handler.clients⟩ :=
        reached
      rw [if_pos reached]
      simp [reaches, Post.shown]
    · have misses : ¬ Post.Reaches r ⟨p, (s.handler.nameOf p).getD [], posted, s.handler.clients⟩ :=
        reached
      rw [if_neg reached]
      simp [misses]
  · have other : ∀ channel ship, request ≠ .postShip channel ship :=
      fun channel ship same => posting ⟨channel, ship, same⟩
    have none : T.shipOf payload = none := by
      cases request with
      | postShip channel ship => exact absurd rfl (other channel ship)
      | _ => simp only [Thrift.shipOf, decoded]
    rw [Handler.serve_shows_nothing found other served r, none]
    rfl

section Step

variable (valid : s.Valid) (r : Protocol)
include valid

theorem returned_received (returns : s.Returns T e) :
    received r (s.step T e).log = received r s.log ++ (e.post T s).filterMap
      fun x => if x.Reaches r then some x.shown else none := by
  have running := valid.sound.running
  cases payload : e.payload? s with
  | none =>
    have nothing : e.post T s = [] := by
      cases e <;> simp [Event.post, payload]
    rw [quiet_received payload, nothing]
    simp
  | some bytes =>
    obtain ⟨request, decoded⟩ := returns bytes payload
    obtain ⟨p, i, c, n, rfl, found, finished⟩ := payload?_eq_some payload
    have connected : p ∈ s.handler.clients :=
      (taken_chains valid.sound valid.consistent found finished).2.1
    obtain ⟨-, answer, next, served, -, after⟩ :=
      frameData_handled valid.sound valid.consistent found finished decoded
    have log : (s.step T (.run p i)).log = s.log ++ s.chains.serving p bytes answer := by
      rw [step_run running found finished]
      exact congrArg Chains.log after
    have posted : (Event.run p i).post T s = (T.shipOf bytes).toList.map fun ship =>
        ⟨p, (s.handler.nameOf p).getD [], ship, s.handler.clients⟩ := by
      simp [Event.post, payload, running]
    rw [log, posted, received, List.filterMap_append]
    exact congrArg (received r s.log ++ ·)
      (served_received valid.consistent connected decoded served r)

theorem threw_received (broken : ¬ s.Returns T e) :
    received r (s.step T e).log = received r s.log ++ (e.post T s).filterMap
      fun x => if x.Reaches r then some x.shown else none := by
  obtain ⟨p, i, bytes, rfl, payload, broken⟩ := not_returns broken
  have nothing : (Event.run p i).post T s = [] := by
    have unread : T.shipOf bytes = none := by
      cases decoded : T.request bytes with
      | ok request => exact absurd ⟨request, decoded⟩ broken
      | error e => simp only [Thrift.shipOf, decoded]
    simp [Event.post, payload, unread]
  obtain ⟨c, handler, current, -, threw⟩ := valid.threw payload broken
  rw [threw, nothing, received, List.filterMap_append]
  simp [received, Call.shipTo]

end Step

theorem step_received (valid : s.fault = none → s.Valid) (r : Protocol) :
    received r (s.step T e).log = received r s.log ++ (e.post T s).filterMap
      fun x => if x.Reaches r then some x.shown else none := by
  by_cases running : s.fault = none
  · by_cases returns : s.Returns T e
    · exact returned_received (valid running) r returns
    · exact threw_received (valid running) r returns
  · have nothing : e.post T s = [] := by
      have stopped : s.fault.isSome := Option.isSome_iff_ne_none.mpr running
      cases e <;> simp [Event.post, stopped]
    rw [step_stopped running, nothing]
    exact (List.append_nil _).symm

theorem received_eq (T : Thrift) (es : List Event) (r : Protocol) :
    received r (run (step T) create es).log = (Post.reaching r (posts T es)).map Post.shown := by
  have all := run_history (h := fun s : Server => received r s.log)
    (I := fun s : Server => s.fault = none → s.Valid)
    (fun s e valid => ⟨valid_of_running valid, step_received (T := T) (e := e) valid r⟩)
    (fun _ => valid_create) es
  have empty : received r create.log = [] := rfl
  rw [all, empty, ← collect_filterMap, Post.reaching, ← List.filterMap_eq_map,
    List.filterMap_filter]
  simp [posts]

end Server

end ThriftAsio
