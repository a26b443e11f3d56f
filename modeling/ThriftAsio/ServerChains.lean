import ThriftAsio.ReadChains

/-! Every step of the server is a step of its read chains. The transports' own invariant comes
along: it keeps the writes, which the chains do not see, from ending the program. -/

namespace ThriftAsio
open Proactor Asio Machine

@[simp] theorem Chains.setLink_setLink (a : Chains) (p : Protocol) (l l' : Link) :
    (a.setLink p l).setLink p l' = a.setLink p l' := by
  simp [Chains.setLink]

@[simp] theorem Chains.setLink_self (a : Chains) (p : Protocol) (l : Link) :
    (a.setLink p l).links p = some l := by
  simp [Chains.setLink]

namespace Server

def chains (s : Server) : Chains :=
  ⟨fun p => (s.connections p).map Connection.link, s.handler, s.log⟩

structure Sound (s : Server) : Prop where
  running : s.fault = none
  connections : ∀ p c, s.connections p = some c → c.Sound

/-- What the chains see of an event. -/
def Event.input : Event → Option Chains.Input
  | .arrive p bytes => some (p, bytes)
  | _ => none

def Event.payload? (s : Server) : Event → Option (List UInt8)
  | .run p i => (s.connections p).bind fun c =>
    match ready c.transport.socket.ops i with
    | some (.own (.frameData _), .ok payload) => some payload
    | _ => none
  | _ => none

theorem payload?_eq_some {s : Server} {e : Event} {payload : List UInt8}
    (h : e.payload? s = some payload) : ∃ p i c n, e = .run p i ∧ s.connections p = some c ∧
      ready c.transport.socket.ops i = some (.own (.frameData n), .ok payload) := by
  match e, h with
  | .run p i, h =>
    obtain ⟨c, hc, h⟩ := Option.bind_eq_some_iff.mp h
    split at h
    · rename_i n payload' finished
      obtain rfl := Option.some.inj h
      exact ⟨p, i, c, n, rfl, hc, finished⟩
    · cases h

/-- If the step processes a frame, its payload can be decoded, so `process` returns. -/
def Returns (T : Thrift) (s : Server) (e : Event) : Prop :=
  ∀ payload ∈ e.payload? s, T.Decodes payload

instance (T : Thrift) (s : Server) : DecidablePred (Returns T s) := fun e =>
  inferInstanceAs (Decidable (∀ payload ∈ e.payload? s, T.Decodes payload))

theorem step_running {T : Thrift} {s : Server} (running : s.fault = none) (e : Event) :
    s.step T e = s.act T e := by simp [step, running]

theorem step_run {T : Thrift} {s : Server} (running : s.fault = none) {p : Protocol}
    {c : Connection} (h : s.connections p = some c) {i : Nat} {op : SocketOp ReadOp}
    {r : Completion UInt8} (finished : ready c.transport.socket.ops i = some (op, r)) :
    s.step T (.run p i) = s.handle T p (c.transport.take i) op r := by
  rw [step_running running]
  simp only [act, h, finished]

theorem links_eq_some {s : Server} {p : Protocol} {l : Link} :
    s.chains.links p = some l ↔ ∃ c, s.connections p = some c ∧ c.link = l := by
  simp [chains]

section Connections

variable {s : Server} {p : Protocol} {c : Connection} {f : Connection → Connection}

theorem onConnection_self (h : s.connections p = some c) :
    (s.onConnection p f).connections p = some (f c) := by
  simp [onConnection, h]

theorem onConnection_other {q : Protocol} (other : p ≠ q) :
    (s.onConnection p f).connections q = s.connections q := Function.update_of_ne other.symm ..

theorem chains_onConnection (h : s.connections p = some c) :
    (s.onConnection p f).chains = s.chains.setLink p (f c).link := by
  have links : (s.onConnection p f).chains.links = (s.chains.setLink p (f c).link).links := by
    funext q
    by_cases same : q = p
    · subst same
      simp [chains, onConnection, Chains.setLink, h]
    · simp [chains, onConnection, Chains.setLink, same]
  exact congrArg (fun links => (⟨links, s.handler, s.log⟩ : Chains)) links

theorem chains_onConnection_same (h : ∀ c, s.connections p = some c → (f c).link = c.link) :
    (s.onConnection p f).chains = s.chains := by
  have links : (s.onConnection p f).chains.links = s.chains.links := by
    funext q
    by_cases same : q = p
    · subst same
      cases hc : s.connections q with
      | none => simp [chains, onConnection, hc]
      | some c => simp [chains, onConnection, hc, h c hc]
    · simp [chains, onConnection, same]
  exact congrArg (fun links => (⟨links, s.handler, s.log⟩ : Chains)) links

theorem Sound.onConnection (sound : s.Sound)
    (h : ∀ c, s.connections p = some c → c.Sound → (f c).Sound) : (s.onConnection p f).Sound := by
  refine ⟨sound.running, fun q d hd => ?_⟩
  by_cases same : q = p
  · subst same
    simp only [Server.onConnection, Function.update_self, Option.map_eq_some_iff] at hd
    obtain ⟨c, hc, rfl⟩ := hd
    exact h c hc (sound.connections q c hc)
  · simp only [Server.onConnection, Function.update_of_ne same] at hd
    exact sound.connections q d hd

theorem startRead_spec (sound : s.Sound) (h : s.connections p = some c) (op : ReadOp) :
    (s.onConnection p (·.startRead op)).Sound ∧ ∃ r, Chains.Started r ∧
      (s.onConnection p (·.startRead op)).chains =
        s.chains.setLink p { c.link with reads := c.reads ++ [⟨op, r⟩] } := by
  obtain ⟨r, started, link⟩ := Connection.link_startRead (c := c) op
  exact ⟨sound.onConnection fun c _ ok => ok.startRead op, r, started, by
    rw [chains_onConnection h, link]⟩

end Connections

section Send

variable {T : Thrift} {s : Server}

theorem chains_write (p : Protocol) (frame : List UInt8) : (s.write p frame).chains = s.chains :=
  chains_onConnection_same fun _ _ => Connection.link_write frame

theorem Sound.write (sound : s.Sound) (p : Protocol) (frame : List UInt8) :
    (s.write p frame).Sound := sound.onConnection fun _ _ ok => ok.write frame

theorem Sound.sends (sound : s.Sound) (msgs : List (Protocol × OutMessage)) :
    (msgs.foldl (send T) s).Sound ∧ (msgs.foldl (send T) s).chains =
      { s.chains with log := s.log ++ msgs.map fun m => .sent m.1 m.2 } := by
  induction msgs generalizing s with
  | nil => exact ⟨sound, by simp [chains]⟩
  | cons m msgs ih =>
    have written : (send T s m).Sound :=
      ⟨(sound.write m.1 (T.frame m.2)).running, (sound.write m.1 (T.frame m.2)).connections⟩
    obtain ⟨sound', rest⟩ := ih written
    refine ⟨sound', ?_⟩
    have logged : (send T s m).chains = ⟨(s.write m.1 (T.frame m.2)).chains.links, s.handler,
        s.log ++ [.sent m.1 m.2]⟩ := rfl
    rw [List.foldl_cons, rest, logged, chains_write]
    simp [send, chains]

end Send

section Handle

variable {T : Thrift} {s : Server} {p : Protocol} {c : Connection} {i : Nat}

theorem Sound.withHandler (sound : s.Sound) (h : Handler) (log : List Call) :
    Sound { s with handler := h, log := log } := ⟨sound.running, sound.connections⟩

theorem disconnected_chains (sound : s.Sound) (connected : p ∈ s.handler.clients) :
    (s.onDisconnected p).Sound ∧ ∃ h, s.handler.onClientDisconnected p = .ok h ∧
      (s.onDisconnected p).chains =
        { s.chains with handler := h, log := s.log ++ [.disconnected p] } := by
  have erased := Handler.onClientDisconnected_ok connected
  simp only [onDisconnected, erased]
  exact ⟨sound.withHandler _ _, _, rfl, rfl⟩

theorem process_chains (sound : s.Sound) {payload : List UInt8} {request : Request}
    (decoded : T.request payload = .ok request) {answer : Answer}
    (processed : s.handler.process p request = .ok answer) :
    (process T s p payload).Sound ∧ (process T s p payload).chains =
      ⟨s.chains.links, answer.handler, s.log ++ [.process p payload s.handler.currentClient] ++
        answer.sent.map (fun m => .sent m.1 m.2) ++ [.processReturned p]⟩ := by
  let called : Server := { s with
    handler := answer.handler
    log := s.log ++ [.process p payload s.handler.currentClient] }
  have calledSound : called.Sound := sound.withHandler _ _
  obtain ⟨sound', written⟩ := calledSound.sends (T := T) answer.sent
  have ran : process T s p payload = { answer.sent.foldl (send T) called with
      log := (answer.sent.foldl (send T) called).log ++ [.processReturned p] } := by
    simp only [process, decoded, processed]
    rfl
  rw [ran]
  refine ⟨sound'.withHandler _ _, ?_⟩
  have links : (answer.sent.foldl (send T) called).chains.links = s.chains.links :=
    Eq.trans (congrArg Chains.links written) rfl
  have handler : (answer.sent.foldl (send T) called).handler = answer.handler :=
    congrArg Chains.handler written
  have log : (answer.sent.foldl (send T) called).log = called.log ++
      answer.sent.map (fun m => .sent m.1 m.2) := congrArg Chains.log written
  exact Chains.mk.injEq .. |>.mpr ⟨links, handler, congrArg (· ++ [Call.processReturned p]) log⟩

theorem frameData_chains (sound : s.Sound) (h : s.connections p = some c)
    (connected : p ∈ s.handler.clients) {payload : List UInt8} {request : Request}
    (decoded : T.request payload = .ok request) :
    (s.onFrameData T p payload).Sound ∧ ∃ answer r, s.handler.serve p request = .ok answer ∧
      Chains.Started r ∧ (s.onFrameData T p payload).chains =
        { s.chains.setLink p { c.link with reads := c.reads ++ [⟨.frameSize, r⟩] } with
          handler := answer.handler
          log := s.log ++ s.chains.serving p payload answer } := by
  obtain ⟨client, hc⟩ : ∃ client, s.handler.clients[p]? = some client :=
    ⟨s.handler.clients[p], Std.ExtTreeMap.getElem?_eq_some_getElem connected⟩
  let before : Server := { s with
    handler := { s.handler with currentClient := some client }
    log := s.log ++ [.beforeProcess p] }
  obtain ⟨answer, processed⟩ := Handler.process_ok before.handler p request rfl
  have served : s.handler.serve p request =
      .ok { answer with handler := answer.handler.afterProcess } := by
    rw [Handler.serve_eq hc, processed]
    rfl
  have beforeSound : before.Sound := sound.withHandler _ _
  obtain ⟨sound', chains'⟩ := process_chains beforeSound decoded processed
  let after : Server := { process T before p payload with
    handler := (process T before p payload).handler.afterProcess
    log := (process T before p payload).log ++ [.afterProcess] }
  have found : s.handler.beforeProcess p = .ok before.handler := by
    simp only [Handler.beforeProcess, hc]
    rfl
  have ran : s.onFrameData T p payload = after.readFrameSize p := by
    rw [onFrameData, found]
    exact if_neg (by rw [sound'.running]; simp)
  obtain ⟨c', hc', link⟩ : ∃ c', after.connections p = some c' ∧ c'.link = c.link := by
    have same : after.chains.links p = s.chains.links p :=
      congrFun (congrArg Chains.links chains') p
    rw [← links_eq_some, same]
    exact links_eq_some.mpr ⟨c, h, rfl⟩
  have afterSound : after.Sound := sound'.withHandler _ _
  obtain ⟨sound'', r, started, reading⟩ := startRead_spec afterSound hc' .frameSize
  have afterChains : after.chains = ⟨s.chains.links, answer.handler.afterProcess,
      s.log ++ s.chains.serving p payload ⟨answer.handler.afterProcess, answer.sent⟩⟩ := by
    have links : (process T before p payload).chains.links = s.chains.links :=
      Eq.trans (congrArg Chains.links chains') rfl
    have handler : after.handler = answer.handler.afterProcess :=
      congrArg (fun a => a.handler.afterProcess) chains'
    have log : after.log = s.log ++
        s.chains.serving p payload ⟨answer.handler.afterProcess, answer.sent⟩ := by
      have logged : after.log = (process T before p payload).chains.log ++ [.afterProcess] := rfl
      have current : s.chains.handler.clients[p]? = some client := hc
      rw [logged, chains', Chains.serving, current]
      simp [before]
    exact Chains.mk.injEq .. |>.mpr ⟨links, handler, log⟩
  rw [ran]
  refine ⟨sound'', _, r, served, started, reading.trans ?_⟩
  have reads : c'.reads = c.reads := congrArg Link.reads link
  rw [afterChains, link, reads]
  rfl

theorem outstanding_read (h : s.connections p = some c) {op : ReadOp} {r : Completion UInt8}
    (finished : ready c.transport.socket.ops i = some (.own op, r)) :
    s.chains.links p = some c.link ∧ (⟨op, some r⟩ : Op ReadOp (Completion UInt8)) ∈ c.link.reads :=
  ⟨links_eq_some.mpr ⟨c, h, rfl⟩, List.mem_filterMap.mpr ⟨_, ready_mem finished, rfl⟩⟩

theorem taken_chains (sound : s.Sound) (ok : s.chains.Consistent) (h : s.connections p = some c)
    {op : ReadOp} {r : Completion UInt8}
    (finished : ready c.transport.socket.ops i = some (.own op, r)) :
    let taken := s.onConnection p (·.onTransport fun _ => c.transport.take i)
    taken.Sound ∧ p ∈ s.handler.clients ∧ c.reads = [⟨op, some r⟩] ∧
      taken.chains = s.chains.setLink p { c.link with reads := [] } ∧
      ∃ c', taken.connections p = some c' ∧ c'.link = { c.link with reads := [] } := by
  obtain ⟨link, outstanding⟩ := outstanding_read h finished
  obtain ⟨connected, single⟩ := ok.reading link outstanding
  have few : c.reads.length ≤ 1 := Nat.le_of_eq (congrArg List.length single)
  have nothing : (c.onTransport (·.take i)).link = { c.link with reads := [] } :=
    congrArg (fun rs => (⟨rs, c.unread, c.arrived⟩ : Link)) (Connection.take_read finished few).2
  refine ⟨sound.onConnection fun d hd ok => ?_, connected, single, ?_, c.onTransport (·.take i),
    ?_, nothing⟩
  · obtain rfl := Option.some.inj (h.symm.trans hd)
    exact ok.take_read finished
  · rw [chains_onConnection h]
    exact congrArg (s.chains.setLink p) nothing
  · simp [onConnection, h, Connection.onTransport]

theorem frameSize_handled (sound : s.Sound) (ok : s.chains.Consistent)
    (h : s.connections p = some c) {size : List UInt8}
    (finished : ready c.transport.socket.ops i = some (.own .frameSize, .ok size)) :
    (s.handle T p (c.transport.take i) (.own .frameSize) (.ok size)).Sound ∧
      ∃ r, Chains.Started r ∧
        (s.handle T p (c.transport.take i) (.own .frameSize) (.ok size)).chains =
          s.chains.setLink p { c.link with reads := [⟨.frameData (bigEndian size), r⟩] } := by
  obtain ⟨takenSound, -, -, takenChains, c', hc', link'⟩ := taken_chains sound ok h finished
  obtain ⟨sound', r, started, chains'⟩ :=
    startRead_spec takenSound hc' (.frameData (bigEndian size))
  refine ⟨sound', r, started, chains'.trans ?_⟩
  have reads : c'.reads = [] := congrArg Link.reads link'
  rw [takenChains, Chains.setLink_setLink, link', reads]
  rfl

theorem frameData_handled (sound : s.Sound) (ok : s.chains.Consistent)
    (h : s.connections p = some c) {n : Nat} {payload : List UInt8}
    (finished : ready c.transport.socket.ops i = some (.own (.frameData n), .ok payload))
    {request : Request} (decoded : T.request payload = .ok request) :
    (s.handle T p (c.transport.take i) (.own (.frameData n)) (.ok payload)).Sound ∧
      ∃ answer r, s.handler.serve p request = .ok answer ∧ Chains.Started r ∧
        (s.handle T p (c.transport.take i) (.own (.frameData n)) (.ok payload)).chains =
          { s.chains.setLink p { c.link with reads := [⟨.frameSize, r⟩] } with
            handler := answer.handler
            log := s.log ++ s.chains.serving p payload answer } := by
  obtain ⟨takenSound, connected, -, takenChains, c', hc', link'⟩ := taken_chains sound ok h finished
  obtain ⟨sound', answer, r, served, started, chains'⟩ :=
    frameData_chains takenSound hc' connected decoded
  refine ⟨sound', answer, r, served, started, chains'.trans ?_⟩
  have reads : c'.reads = [] := congrArg Link.reads link'
  rw [takenChains, Chains.setLink_setLink, link', reads]
  rfl

theorem written_handled (sound : s.Sound) (h : s.connections p = some c) {msg : Message}
    {r : Completion UInt8} (finished : ready c.transport.socket.ops i = some (.asyncWrite msg, r)) :
    (s.handle T p (c.transport.take i) (.asyncWrite msg) r).Sound ∧
      Chains.Step T none s.chains
        (s.handle T p (c.transport.take i) (.asyncWrite msg) r).chains := by
  obtain ⟨fault, sound', changed⟩ := (sound.connections p c h).written finished
  have ran : s.handle T p (c.transport.take i) (.asyncWrite msg) r =
      { s.onConnection p (·.onTransport fun _ =>
          ((c.transport.take i).handle (.asyncWrite msg) r).state) with
        fault := ((c.transport.take i).handle (.asyncWrite msg) r).fault } := by
    cases r <;> rfl
  rw [ran]
  refine ⟨⟨fault, ?_⟩, ?_⟩
  · refine (sound.onConnection fun d hd _ => ?_).connections
    obtain rfl := Option.some.inj (h.symm.trans hd)
    exact sound'
  · change Chains.Step T none s.chains (s.onConnection p _).chains
    rcases changed with same | ⟨ec, closed⟩
    · rw [chains_onConnection_same fun d hd => by
        obtain rfl := Option.some.inj (h.symm.trans hd)
        exact same]
      exact .stutter _ _
    · rw [chains_onConnection h, closed]
      exact .failed (links_eq_some.mpr ⟨c, h, rfl⟩) ec

theorem handle_chains (sound : s.Sound) (ok : s.chains.Consistent) (h : s.connections p = some c)
    {op : SocketOp ReadOp} {r : Completion UInt8}
    (finished : ready c.transport.socket.ops i = some (op, r)) (returns : s.Returns T (.run p i)) :
    (s.handle T p (c.transport.take i) op r).Sound ∧
      Chains.Step T none s.chains (s.handle T p (c.transport.take i) op r).chains := by
  cases op with
  | asyncReceive =>
    refine absurd ?_ (sound.connections p c h).noReceive
    exact List.mem_map.mpr ⟨_, ready_mem finished, rfl⟩
  | asyncWrite msg => exact written_handled sound h finished
  | own m =>
    obtain ⟨takenSound, connected, single, takenChains, -⟩ := taken_chains sound ok h finished
    have link : s.chains.links p = some c.link := links_eq_some.mpr ⟨c, h, rfl⟩
    cases r with
    | error ec =>
      have ran : s.handle T p (c.transport.take i) (.own m) (.error ec) =
          (s.onConnection p (·.onTransport fun _ => c.transport.take i)).onDisconnected p := by
        cases m <;> rfl
      obtain ⟨sound', handler, erased, chains'⟩ := disconnected_chains takenSound connected
      rw [ran, chains', takenChains]
      exact ⟨sound', .disconnected link single erased⟩
    | ok bytes =>
      cases m with
      | frameSize =>
        obtain ⟨sound', r, started, chains'⟩ := frameSize_handled (T := T) sound ok h finished
        rw [chains']
        exact ⟨sound', .sized link single started⟩
      | frameData n =>
        obtain ⟨request, decoded⟩ := returns bytes (by simp [Event.payload?, h, finished])
        obtain ⟨sound', answer, r, served, started, chains'⟩ :=
          frameData_handled sound ok h finished decoded
        rw [chains']
        exact ⟨sound', .served link single decoded served started⟩

end Handle

theorem accepted_chains {T : Thrift} {s : Server} {p : Protocol} (sound : s.Sound)
    (ok : s.chains.Consistent) (fresh : s.connections p = none) :
    (s.onAccept p).Sound ∧ Chains.Step T none s.chains (s.onAccept p).chains := by
  have unknown : s.chains.links p = none := by simp [chains, fresh]
  have absent : p ∉ s.handler.clients := fun known => ok.known p known unknown
  obtain ⟨h, made⟩ := Handler.onClientConnected_ok absent
  let accepted : Server := { s with
    connections := Function.update s.connections p (some .create)
    handler := h
    log := s.log ++ [.connected p s.handler.made] }
  have ran : s.onAccept p = accepted.readFrameSize p := by
    rw [onAccept, made]
  have hp : accepted.connections p = some .create := Function.update_self ..
  have acceptedSound : accepted.Sound := by
    refine ⟨sound.running, fun q d hd => ?_⟩
    by_cases same : q = p
    · subst same
      obtain rfl := Option.some.inj (hp.symm.trans hd)
      exact ⟨rfl, by simp [Connection.create, Transport.create, Socket.outstanding]⟩
    · exact sound.connections q d (by simpa [accepted, Function.update_of_ne same] using hd)
  rw [ran]
  refine ⟨acceptedSound.onConnection fun _ _ ok => ok.startRead _, ?_⟩
  have chains' : (accepted.readFrameSize p).chains =
      { s.chains.setLink p ⟨[⟨.frameSize, none⟩], [], []⟩ with
        handler := h
        log := s.log ++ [.connected p s.handler.made] } := by
    refine (chains_onConnection hp).trans ?_
    have links : accepted.chains.links =
        Function.update s.chains.links p (some Connection.create.link) := by
      funext q
      by_cases same : q = p
      · subst same
        simp [chains, accepted]
      · simp [chains, accepted, same]
    rw [Chains.setLink, links, Function.update_idem]
    rfl
  rw [chains']
  exact .accepted unknown made

theorem finish_chains {T : Thrift} {s : Server} (sound : s.Sound) (ok : s.chains.Consistent)
    (p : Protocol) (i : Nat) (r : Except ErrorCode Unit) :
    (s.onConnection p (·.finish i r)).Sound ∧
      Chains.Step T none s.chains (s.onConnection p (·.finish i r)).chains := by
  refine ⟨sound.onConnection fun c _ ok => ok.finish i r, ?_⟩
  cases h : s.connections p with
  | none =>
    rw [chains_onConnection_same (by simp [h])]
    exact .stutter _ _
  | some c =>
    have link : s.chains.links p = some c.link := links_eq_some.mpr ⟨c, h, rfl⟩
    have few : c.link.reads.length ≤ 1 := by
      have count := ok.chain p c.link link
      split at count <;> omega
    rw [chains_onConnection h]
    rcases Connection.finish_cases few i r with same | ⟨ec, failed⟩ | ⟨op, reading, enough, done⟩
    · have unchanged : s.chains.setLink p c.link = s.chains := by
        rw [Chains.setLink, ← link, Function.update_eq_self]
      rw [same, unchanged]
      exact .stutter _ _
    · rw [failed]
      exact .failed link ec
    · rw [done]
      exact .completed link reading enough

/-- The server refines its read chains: each step, in which the processor returns, is one step or
none of the chains, and the transports stay sound. -/
theorem step_chains {T : Thrift} {s : Server} (sound : s.Sound) (ok : s.chains.Consistent)
    {e : Event} (returns : s.Returns T e) :
    (s.step T e).Sound ∧ Chains.Step T e.input s.chains (s.step T e).chains := by
  rw [step_running sound.running]
  cases e with
  | finishAccept i r => exact ⟨⟨sound.running, sound.connections⟩, .stutter _ _⟩
  | stopListening => exact ⟨⟨sound.running, sound.connections⟩, .stutter _ _⟩
  | write p frame =>
    refine ⟨sound.write p frame, ?_⟩
    simp only [act, chains_write]
    exact .stutter _ _
  | runAccept i p =>
    simp only [act]
    split
    · exact ⟨⟨sound.running, sound.connections⟩, .stutter _ _⟩
    · rename_i fresh
      have taken : Sound { s with acceptor := s.acceptor.take i } :=
        ⟨sound.running, sound.connections⟩
      obtain ⟨sound', moved⟩ := accepted_chains (T := T) taken ok fresh
      rw [if_neg (by rw [sound'.running]; simp)]
      exact ⟨⟨sound'.running, sound'.connections⟩, moved⟩
    · exact ⟨sound, .stutter _ _⟩
  | arrive p bytes =>
    refine ⟨sound.onConnection fun c _ ok => ⟨ok.matched, ok.noReceive⟩, ?_⟩
    simp only [act]
    cases h : s.connections p with
    | none =>
      rw [chains_onConnection_same (by simp [h])]
      exact .stutter _ _
    | some c =>
      rw [chains_onConnection h]
      exact .arrived (links_eq_some.mpr ⟨c, h, rfl⟩) bytes
  | finish p i r => exact finish_chains sound ok p i r
  | run p i =>
    simp only [act]
    cases h : s.connections p with
    | none => exact ⟨sound, .stutter _ _⟩
    | some c =>
      cases finished : ready c.transport.socket.ops i with
      | none =>
        simp only [finished]
        exact ⟨sound, .stutter _ _⟩
      | some found =>
        simp only [finished]
        exact handle_chains sound ok h finished returns

end Server

end ThriftAsio
