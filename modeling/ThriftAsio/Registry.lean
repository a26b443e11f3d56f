import ThriftAsio.BinaryProtocol
import ThriftAsio.ServerChains
import ThriftAsio.UserNames

/-! `clients_` and the read chains agree: a connection is a key exactly as long as one read is
outstanding on it, however it ends. The log tells how often the handler was called for it. -/

namespace ThriftAsio
open Proactor Asio Machine

def Call.connects (p : Protocol) : Call → Bool
  | .connected q _ => q = p
  | _ => false

namespace Chains

theorem Consistent.setLink {a : Chains} (ok : a.Consistent) {p : Protocol} {l l' : Link}
    (link : a.links p = some l) (same : l'.reads.length = l.reads.length) :
    (a.setLink p l').Consistent := by
  refine ⟨ok.handler, fun q known => ?_, fun q k hk => ?_⟩
  · by_cases hq : q = p
    · simp [Chains.setLink, hq]
    · simpa [Chains.setLink, Function.update_of_ne hq] using ok.known q known
  · by_cases hq : q = p
    · subst hq
      obtain rfl : l' = k := by simpa [Chains.setLink] using hk
      rw [same]
      exact ok.chain q l link
    · exact ok.chain q k (by simpa [Chains.setLink, Function.update_of_ne hq] using hk)

theorem Consistent.step {T : Thrift} {i : Option Input} {a b : Chains} (ok : a.Consistent)
    (h : Step T i a b) : b.Consistent := by
  cases h with
  | stutter => exact ok
  | arrived link bytes => exact ok.setLink link rfl
  | completed link reading enough => exact ok.setLink link (by rw [reading]; rfl)
  | failed link ec => exact ok.setLink link (by simp [cancel])
  | sized link read next => exact ok.setLink link (by rw [read]; rfl)
  | @served _ p l link n payload read request decoded answer served r next =>
    have kept : (a.setLink p { l with reads := [⟨.frameSize, r⟩] }).Consistent :=
      ok.setLink link (by rw [read]; rfl)
    have clients := Handler.serve_clients served
    have handler : answer.handler.Wellformed :=
      (ok.handler.act (e := .request p request) (by rw [Handler.act, served]; rfl)).1
    refine ⟨handler, fun q known => ?_, fun q k hk => ?_⟩
    · simp only [clients] at known
      exact kept.known q known
    · simp only [clients]
      exact kept.chain q k hk
  | @accepted _ p h fresh made =>
    have member := Handler.mem_connected made
    refine ⟨(ok.handler.connected made).1, fun q known => ?_, fun q k hk => ?_⟩
    · by_cases hq : q = p
      · simp [Chains.setLink, hq]
      · have old : q ∈ a.handler.clients := ((member q).mp known).resolve_left hq
        simpa [Chains.setLink, Function.update_of_ne hq] using ok.known q old
    · simp only [member]
      by_cases hq : q = p
      · subst hq
        obtain rfl : _ = k := by simpa [Chains.setLink] using hk
        simp
      · simp only [hq, false_or]
        exact ok.chain q k (by simpa [Chains.setLink, Function.update_of_ne hq] using hk)
  | @disconnected _ p l link op ec failed h erased =>
    have member := Handler.mem_disconnected erased
    refine ⟨(ok.handler.disconnected erased).1, fun q known => ?_, fun q k hk => ?_⟩
    · obtain ⟨hq, old⟩ := (member q).mp known
      simpa [Chains.setLink, Function.update_of_ne hq] using ok.known q old
    · simp only [member]
      by_cases hq : q = p
      · subst hq
        obtain rfl : _ = k := by simpa [Chains.setLink] using hk
        simp
      · simp only [ne_eq, hq, not_false_eq_true, true_and]
        exact ok.chain q k (by simpa [Chains.setLink, Function.update_of_ne hq] using hk)

/-- What the log says about the calls for each connection. -/
structure Logged (a : Chains) : Prop where
  once : ∀ p, a.log.countP (Call.connects p) = if (a.links p).isSome then 1 else 0
  gone : ∀ p, a.log.count (.disconnected p) =
    if (a.links p).isSome ∧ p ∉ a.handler.clients then 1 else 0
  last : a.log.Pairwise fun x y => ∀ p, x = .disconnected p → y ≠ .beforeProcess p

theorem serving_connects (a : Chains) (p : Protocol) (payload : List UInt8) (answer : Answer)
    (q : Protocol) : (a.serving p payload answer).countP (Call.connects q) = 0 := by
  refine List.countP_eq_zero.mpr fun x hx => ?_
  simp only [serving, List.mem_append, List.mem_cons, List.mem_map, List.not_mem_nil,
    or_false] at hx
  rcases hx with ((rfl | rfl) | ⟨m, -, rfl⟩) | rfl | rfl <;> simp [Call.connects]

theorem serving_disconnected (a : Chains) (p : Protocol) (payload : List UInt8) (answer : Answer)
    (q : Protocol) : .disconnected q ∉ a.serving p payload answer := by
  simp [serving]

theorem serving_beforeProcess (a : Chains) (p : Protocol) (payload : List UInt8)
    (answer : Answer) {q : Protocol} (h : .beforeProcess q ∈ a.serving p payload answer) :
    q = p := by
  simpa [serving] using h

section Step

variable {a b : Chains} {p : Protocol} {l : Link}

theorem Logged.setLink (logged : a.Logged) {l' : Link} (link : a.links p = some l) :
    (a.setLink p l').Logged := by
  have same : ∀ q, ((a.setLink p l').links q).isSome = (a.links q).isSome := by
    intro q
    by_cases hq : q = p
    · simp [Chains.setLink, hq, link]
    · simp [Chains.setLink, Function.update_of_ne hq]
  refine ⟨fun q => ?_, fun q => ?_, logged.last⟩
  · rw [same]
    exact logged.once q
  · rw [same]
    exact logged.gone q

theorem Logged.served (logged : a.Logged) (kept : (a.setLink p l).Logged)
    (connected : p ∈ a.handler.clients) {payload : List UInt8} {answer : Answer}
    (clients : answer.handler.clients = a.handler.clients) :
    Logged { a.setLink p l with
      handler := answer.handler
      log := a.log ++ a.serving p payload answer } := by
  have present : .disconnected p ∉ a.log := by
    apply List.count_eq_zero.mp
    rw [logged.gone p, if_neg fun gone => gone.2 connected]
  refine ⟨fun q => ?_, fun q => ?_, List.pairwise_append.mpr ⟨logged.last, ?_, ?_⟩⟩
  · rw [List.countP_append, serving_connects]
    exact kept.once q
  · rw [List.count_append, List.count_eq_zero.mpr (serving_disconnected a p payload answer q)]
    simp only [clients]
    exact kept.gone q
  · apply List.pairwise_of_forall_mem_list
    intro x hx y _ q gone
    subst gone
    exact absurd hx (serving_disconnected a p payload answer q)
  · rintro x hx y hy q rfl rfl
    obtain rfl := serving_beforeProcess a p payload answer hy
    exact absurd hx present

theorem Logged.accepted (logged : a.Logged) {h : Handler} (fresh : a.links p = none)
    (made : a.handler.onClientConnected p = .ok h) :
    Logged { a.setLink p l with
      handler := h
      log := a.log ++ [.connected p a.handler.made] } := by
  have member := Handler.mem_connected made
  refine ⟨fun q => ?_, fun q => ?_, List.pairwise_append.mpr
    ⟨logged.last, List.pairwise_singleton _ _, fun x _ y hy q _ => ?_⟩⟩
  · have before := logged.once q
    by_cases hq : q = p
    · subst hq
      simp only [fresh] at before
      simp [List.countP_append, before, Call.connects, Chains.setLink]
    · simp [List.countP_append, before, Call.connects, Chains.setLink, Function.update_of_ne hq,
        Ne.symm hq]
  · have before := logged.gone q
    rw [List.count_append, List.count_singleton, before]
    by_cases hq : q = p
    · subst hq
      simp [fresh, member]
    · simp [Chains.setLink, member, hq]
  · rw [List.mem_singleton.mp hy]
    simp

theorem Logged.disconnected (logged : a.Logged) (kept : (a.setLink p l).Logged)
    (connected : p ∈ a.handler.clients) {h : Handler}
    (erased : a.handler.onClientDisconnected p = .ok h) :
    Logged { a.setLink p l with handler := h, log := a.log ++ [.disconnected p] } := by
  have member := Handler.mem_disconnected erased
  refine ⟨fun q => ?_, fun q => ?_, List.pairwise_append.mpr
    ⟨logged.last, List.pairwise_singleton _ _, fun x _ y hy q _ => ?_⟩⟩
  · have nothing : [Call.disconnected p].countP (Call.connects q) = 0 := rfl
    rw [List.countP_append, nothing]
    exact kept.once q
  · have before := logged.gone q
    rw [List.count_append, List.count_singleton, before]
    by_cases hq : q = p
    · subst hq
      simp [Chains.setLink, connected, member]
    · simp [Chains.setLink, member, hq, Ne.symm hq]
  · rw [List.mem_singleton.mp hy]
    simp

theorem Logged.step {T : Thrift} {i : Option Input} (logged : a.Logged) (ok : a.Consistent)
    (h : Step T i a b) : b.Logged := by
  cases h with
  | stutter => exact logged
  | arrived link bytes => exact logged.setLink link
  | completed link reading enough => exact logged.setLink link
  | failed link ec => exact logged.setLink link
  | sized link read next => exact logged.setLink link
  | served link read decoded served next =>
    have connected := (ok.reading link (by rw [read]; exact List.mem_cons_self)).1
    exact logged.served (logged.setLink link) connected (Handler.serve_clients served)
  | accepted fresh made => exact logged.accepted fresh made
  | disconnected link failed erased =>
    have connected := (ok.reading link (by rw [failed]; exact List.mem_cons_self)).1
    exact logged.disconnected (logged.setLink link) connected erased

end Step

end Chains

namespace Server

/-- What holds between any two steps in which the processor returns. -/
structure Valid (s : Server) : Prop where
  sound : s.Sound
  consistent : s.chains.Consistent
  logged : s.chains.Logged

theorem valid_create : create.Valid := by
  refine ⟨⟨rfl, fun p c h => ?_⟩, ⟨Handler.wellformed_create, fun p known => ?_, fun p l h => ?_⟩,
    ⟨fun p => rfl, fun p => rfl, List.Pairwise.nil⟩⟩
  · cases h
  · exact absurd known Std.ExtTreeMap.not_mem_empty
  · cases h

theorem Valid.step {T : Thrift} {s : Server} (valid : s.Valid) {e : Event}
    (returns : s.Returns T e) : (s.step T e).Valid := by
  obtain ⟨sound, moved⟩ := step_chains valid.sound valid.consistent returns
  exact ⟨sound, valid.consistent.step moved, valid.logged.step valid.consistent moved⟩

theorem valid_run {T : Thrift} {es : List Event}
    (returns : Along (step T) (Returns T) create es) : (run (step T) create es).Valid :=
  run_invariant_along (I := Valid) (fun _ _ valid returns => valid.step returns) valid_create
    returns

/-- A connection that was accepted and one that was not, in `clients_` and in the log. -/
structure Registered (s : Server) : Prop where
  running : s.fault = none
  key_iff : ∀ p, p ∈ s.handler.clients ↔ ∃ c, s.connections p = some c ∧ c.reads.length = 1
  others : ∀ p c, s.connections p = some c → p ∉ s.handler.clients → c.reads = []
  connected : ∀ p c, s.connections p = some c → s.log.countP (Call.connects p) = 1
  disconnected : ∀ p, s.log.count (.disconnected p) ≤ 1
  never_after : ∀ p before after, s.log = before ++ .disconnected p :: after →
    .beforeProcess p ∉ after

theorem Valid.registered {s : Server} (valid : s.Valid) : s.Registered := by
  have link : ∀ p c, s.connections p = some c → s.chains.links p = some c.link :=
    fun p c h => links_eq_some.mpr ⟨c, h, rfl⟩
  refine ⟨valid.sound.running, fun p => ⟨fun key => ?_, ?_⟩, fun p c h absent => ?_,
    fun p c h => ?_, fun p => ?_, fun p before after split late => ?_⟩
  · obtain ⟨l, hl⟩ := Option.ne_none_iff_exists'.mp (valid.consistent.known p key)
    obtain ⟨c, hc, rfl⟩ := links_eq_some.mp hl
    exact ⟨c, hc, (valid.consistent.chain p _ hl).trans (if_pos key)⟩
  · rintro ⟨c, hc, one⟩
    by_contra absent
    have none_left := (valid.consistent.chain p _ (link p c hc)).trans (if_neg absent)
    exact absurd (one.symm.trans none_left) (by decide)
  · exact List.length_eq_zero_iff.mp
      ((valid.consistent.chain p _ (link p c h)).trans (if_neg absent))
  · have once := valid.logged.once p
    rwa [link p c h] at once
  · refine (valid.logged.gone p).trans_le ?_
    split <;> omega
  · have ordered := valid.logged.last
    rw [show s.chains.log = _ from split] at ordered
    exact List.rel_of_pairwise_cons (List.pairwise_append.mp ordered).2.1 late p rfl rfl

/-- In every run in which the processor returns, a connection is a key of `clients_` exactly if
one read is outstanding on it; it is connected once and disconnected at most once, and no
assertion fails. -/
theorem registered_of_returns (T : Thrift) (es : List Event)
    (returns : Along (step T) (Returns T) create es) : (run (step T) create es).Registered :=
  (valid_run returns).registered

def frameFrom (p : Protocol) (payload : Bytes) : List Event :=
  [.arrive p (encodeFrame payload), .finish p 0 (.ok ()), .run p 0, .finish p 0 (.ok ()), .run p 0]

def replyLost : List Event :=
  [.finishAccept 0 (.ok ()), .runAccept 0 7, .arrive 7 (encodeFrame (BinaryProtocol.getVersion 0)),
    .finish 7 0 (.ok ()), .run 7 0, .finish 7 0 (.ok ()), .run 7 0,
    .finish 7 0 (.error .eof), .run 7 0, .run 7 0]

theorem registered_reply_lost :
    (run (step BinaryProtocol.library) create replyLost).Registered ∧
      (run (step BinaryProtocol.library) create replyLost).log.count (.disconnected 7) = 1 :=
  ⟨registered_of_returns BinaryProtocol.library replyLost (by decide +kernel), by decide +kernel⟩

theorem handler_refined {T : Thrift} {es : List Event}
    (returns : Along (step T) (Returns T) create es) :
    ∃ ds, run Handler.step (.ok .create) ds = .ok (run (step T) create es).handler := by
  refine (run_invariant_along
    (I := fun s => s.Valid ∧ ∃ ds, run Handler.step (.ok .create) ds = .ok s.handler)
    (fun s e kept returns => ?_) ⟨valid_create, [], rfl⟩ returns).2
  obtain ⟨valid, ds, reached⟩ := kept
  refine ⟨valid.step returns, ?_⟩
  have one : ∀ (d : Handler.Event) h, s.handler.act d = .ok h →
      run Handler.step (.ok .create) (ds ++ [d]) = .ok h := by
    intro d h acted
    rw [run_concat, reached]
    exact acted
  have moved := (step_chains valid.sound valid.consistent returns).2
  generalize e.input = i at moved
  generalize hb : (s.step T e).chains = b at moved
  have handler : (s.step T e).handler = b.handler := congrArg Chains.handler hb
  rw [handler]
  cases moved with
  | served link read decoded served next => exact ⟨_, one (.request _ _) _ (by
      rw [Handler.act, show s.handler.serve _ _ = _ from served]; rfl)⟩
  | accepted fresh made => exact ⟨_, one (.connected _) _ made⟩
  | disconnected link failed erased => exact ⟨_, one (.disconnected _) _ erased⟩
  | _ => exact ⟨ds, reached⟩

end Server

end ThriftAsio
