import ThriftAsio.BadFrames
import ThriftAsio.FramesProcessed

/-! What the server makes of bytes that need not be what a client of its own sends. Any stream is
the start of a stream of frames, so each connection's chain of reads takes whatever arrives apart
into frames, and only a frame that cannot be decoded ends the program. -/

namespace ThriftAsio
open Proactor Asio Machine

namespace Chains

variable {frames frames' : Protocol → List (List UInt8)} {a b : Chains} {T : Thrift}

theorem Streamed.rebase (ok : a.Streamed frames)
    (small : ∀ p, ∀ payload ∈ frames' p, payload.length < 2 ^ 32)
    (sent : ∀ p l, a.links p = some l → l.arrived <+: encodeFrames (frames' p)) :
    a.Streamed frames' := by
  refine ⟨small, sent, ok.fresh, fun p => ?_, ok.arrived, ok.done, ok.chain⟩
  cases link : a.links p with
  | none =>
    rw [ok.fresh p link]
    exact List.nil_prefix
  | some l =>
    have earlier : ∀ f ∈ processed p a.log, f.length < 2 ^ 32 :=
      fun f hf => ok.small p f ((ok.taken p).subset hf)
    have begins := (ok.arrived p l link).trans (sent p l link)
    rw [← List.append_nil (encodeFrames (processed p a.log))] at begins
    exact payloads_prefix earlier (small p) begins

def coming : Option Input → Protocol → List UInt8
  | some (p, bytes), q => if p = q then bytes else []
  | none, _ => []

theorem Streamed.any_step (ok : ∃ frames, a.Streamed frames) {i : Option Input}
    (h : Step T i a b) : ∃ frames, b.Streamed frames := by
  obtain ⟨frames, ok⟩ := ok
  choose payloads small begins using exists_encodeFrames_begins
  let next : Protocol → List (List UInt8) := fun p =>
    payloads ((a.links p).elim [] Link.arrived ++ coming i p)
  have covers : ∀ p l, a.links p = some l →
      l.arrived ++ coming i p <+: encodeFrames (next p) := by
    intro p l link
    simp only [next, link, Option.elim_some]
    exact begins _
  refine ⟨next, (ok.rebase (fun p => small _) fun p l link => ?_).step
    (fun p bytes l came link => ?_) h⟩
  · exact (List.prefix_append _ _).trans (covers p l link)
  · have all := covers p l link
    rwa [came, coming, if_pos rfl] at all

theorem Step.decodes {i : Option Input} {p : Protocol} (h : Step T i a b)
    (ok : ∀ payload ∈ processed p a.log, T.Decodes payload) :
    ∀ payload ∈ processed p b.log, T.Decodes payload := by
  cases h with
  | @served _ q l link n payload read request decoded answer served r next =>
    change ∀ other ∈ processed p (a.log ++ a.serving q payload answer), T.Decodes other
    rw [processed_append, processed_serving]
    intro other mem
    rcases List.mem_append.mp mem with old | new
    · exact ok other old
    · obtain ⟨-, new⟩ := List.mem_ite_nil_right.mp new
      rw [List.mem_singleton.mp new]
      exact ⟨request, decoded⟩
  | accepted fresh made => simpa [processed, Call.payload?] using ok
  | disconnected link failed erased => simpa [processed, Call.payload?] using ok
  | _ => exact ok

theorem update_arrived {i : Option Input} {q : Protocol} {k : Link}
    (own : k.arrived <+: (a.links q).elim [] Link.arrived ++ coming i q) {p : Protocol} {l : Link}
    (link : Function.update a.links q (some k) p = some l) :
    l.arrived <+: (a.links p).elim [] Link.arrived ++ coming i p := by
  by_cases same : q = p
  · subst same
    obtain rfl : k = l := by simpa using link
    exact own
  · rw [Function.update_of_ne (Ne.symm same)] at link
    rw [link]
    exact List.prefix_append _ _

theorem Step.arrived_begins {i : Option Input} (h : Step T i a b) {p : Protocol} {l : Link}
    (link : b.links p = some l) :
    l.arrived <+: (a.links p).elim [] Link.arrived ++ coming i p := by
  cases h with
  | stutter =>
    rw [link]
    exact List.prefix_append _ _
  | arrived found bytes => exact update_arrived (by simp [found, coming]) link
  | completed found reading enough => exact update_arrived (by simp [found]) link
  | failed found ec => exact update_arrived (by simp [found]) link
  | sized found read next => exact update_arrived (by simp [found]) link
  | served found read decoded served next => exact update_arrived (by simp [found]) link
  | disconnected found failed erased => exact update_arrived (by simp [found]) link
  | accepted fresh made => exact update_arrived (by simp) link

theorem Step.log_begins {i : Option Input} (h : Step T i a b) : a.log <+: b.log := by
  cases h <;> first | exact List.prefix_rfl | exact List.prefix_append _ _

end Chains

namespace Server

variable {T : Thrift} {s : Server}

structure Parsed (T : Thrift) (s : Server) : Prop where
  valid : s.fault = none → s.Valid
  streamed : s.fault = none → ∃ frames, s.chains.Streamed frames
  stopped : s.fault = none ∨ s.fault = some .thriftException
  taken : ∀ p c, s.connections p = some c → encodeFrames (processed p s.log) <+: c.arrived
  fresh : ∀ p, s.connections p = none → processed p s.log = []
  small : ∀ p, ∀ payload ∈ processed p s.log, payload.length < 2 ^ 32
  decodes : s.fault = none → ∀ p, ∀ payload ∈ processed p s.log, T.Decodes payload
  broken : s.fault ≠ none → ∃ p, ∃ payload ∈ processed p s.log, ¬ T.Decodes payload

theorem parsed_create : Parsed T create := by
  have nothing : ∀ (p : Protocol) payload, payload ∉ processed p create.log :=
    fun p payload => List.not_mem_nil
  refine ⟨fun _ => valid_create, fun _ => ⟨fun _ => [], ?_⟩, .inl rfl, ?_, fun p _ => rfl,
    fun p payload h => absurd h (nothing p payload),
    fun _ p payload h => absurd h (nothing p payload), fun dead => absurd rfl dead⟩
  · exact streamed_create (T := T) fun p payload h => absurd h List.not_mem_nil
  · intro p c h
    cases h

theorem Parsed.returned (ok : s.Parsed T) (running : s.fault = none) {e : Event}
    (returns : s.Returns T e) : (s.step T e).Parsed T := by
  have valid := ok.valid running
  obtain ⟨sound, moved⟩ := step_chains valid.sound valid.consistent returns
  obtain ⟨frames, streamed⟩ := Chains.Streamed.any_step (ok.streamed running) moved
  refine ⟨fun _ => valid.step returns, fun _ => ⟨frames, streamed⟩, .inl sound.running,
    fun p c h => ?_, fun p h => ?_, fun p payload h => ?_,
    fun _ p => moved.decodes (ok.decodes running p), fun dead => absurd sound.running dead⟩
  · exact streamed.arrived p c.link (links_eq_some.mpr ⟨c, h, rfl⟩)
  · exact streamed.fresh p (by simp [chains, h])
  · exact streamed.small p payload ((streamed.taken p).subset h)

theorem Parsed.next_frame (ok : s.Parsed T) (running : s.fault = none) {p : Protocol} {i : Nat}
    {payload : List UInt8} (h : (Event.run p i).payload? s = some payload) :
    ∃ c, s.connections p = some c ∧ payload.length < 2 ^ 32 ∧
      encodeFrames (processed p s.log ++ [payload]) <+: c.arrived := by
  obtain ⟨_, _, c, n, ⟨⟩, hc, finished⟩ := payload?_eq_some h
  obtain ⟨frames, streamed⟩ := ok.streamed running
  obtain ⟨link, read⟩ := outstanding_read hc finished
  obtain ⟨small, frame, -⟩ := streamed.next link read
  have all := streamed.chain p _ _ link read (by simp [Unfailed])
  rw [frame, ← encodeFrames_concat] at all
  exact ⟨c, hc, small, _, all⟩

theorem Valid.thrown (valid : s.Valid) {p : Protocol} {i : Nat} {payload : List UInt8}
    (h : (Event.run p i).payload? s = some payload) (broken : ¬ T.Decodes payload) :
    (s.step T (.run p i)).fault = some .thriftException ∧
      (∀ q, processed q (s.step T (.run p i)).log =
        processed q s.log ++ if p = q then [payload] else []) ∧
      ∀ q, ((s.step T (.run p i)).connections q).map Connection.arrived =
        (s.connections q).map Connection.arrived := by
  obtain ⟨c, handler, current, hc, threw⟩ := valid.threw h broken
  rw [threw]
  refine ⟨rfl, fun q => ?_, fun q => ?_⟩
  · rw [processed_append]
    by_cases same : p = q
    · simp [processed, List.filterMap_cons, Call.payload?, same]
    · simp [processed, List.filterMap_cons, Call.payload?, same]
  · change ((s.onConnection p (·.onTransport fun _ => c.transport.take i)).connections q).map _ = _
    by_cases same : p = q
    · subst same
      rw [onConnection_self hc, hc]
      rfl
    · rw [onConnection_other same]

theorem Parsed.threw (ok : s.Parsed T) (running : s.fault = none) {e : Event}
    (broken : ¬ s.Returns T e) : (s.step T e).Parsed T := by
  obtain ⟨p, i, payload, rfl, h, broken⟩ := not_returns broken
  obtain ⟨c, hc, small, begins⟩ := ok.next_frame running h
  obtain ⟨fault, log, arrived⟩ := (ok.valid running).thrown h broken
  have dead : (s.step T (.run p i)).fault ≠ none := by simp [fault]
  refine ⟨fun still => absurd still dead, fun still => absurd still dead, .inr fault,
    fun q d hd => ?_, fun q hq => ?_, fun q f hf => ?_, fun still => absurd still dead,
    fun _ => ⟨p, payload, by simp [log], broken⟩⟩
  · obtain ⟨d', hd', same⟩ : ∃ d', s.connections q = some d' ∧ d'.arrived = d.arrived := by
      have known := arrived q
      rw [hd, Option.map_some, eq_comm, Option.map_eq_some_iff] at known
      exact known
    rw [log, ← same]
    by_cases own : p = q
    · subst own
      obtain rfl := Option.some.inj (hc.symm.trans hd')
      rwa [if_pos rfl]
    · rw [if_neg own, List.append_nil]
      exact ok.taken q d' hd'
  · have fresh : s.connections q = none := by
      have unknown := arrived q
      rwa [hq, Option.map_none, eq_comm, Option.map_eq_none_iff] at unknown
    have other : p ≠ q := by
      rintro rfl
      rw [hc] at fresh
      cases fresh
    rw [log, if_neg other, List.append_nil]
    exact ok.fresh q fresh
  · rw [log] at hf
    rcases List.mem_append.mp hf with old | new
    · exact ok.small q f old
    · obtain ⟨-, new⟩ := List.mem_ite_nil_right.mp new
      rw [List.mem_singleton.mp new]
      exact small

theorem Parsed.step (ok : s.Parsed T) (e : Event) : (s.step T e).Parsed T := by
  by_cases running : s.fault = none
  · by_cases returns : s.Returns T e
    · exact ok.returned running returns
    · exact ok.threw running returns
  · rwa [step_stopped running]

theorem Parsed.arrived_step (ok : s.Parsed T) (e : Event) {p : Protocol} {c : Connection}
    (h : (s.step T e).connections p = some c) :
    c.arrived <+: (s.connections p).elim [] Connection.arrived ++ Chains.coming e.input p := by
  by_cases running : s.fault = none
  swap
  · rw [step_stopped running] at h
    rw [h]
    exact List.prefix_append _ _
  have valid := ok.valid running
  by_cases returns : s.Returns T e
  · have moved := (step_chains valid.sound valid.consistent returns).2
    have arrived := moved.arrived_begins (links_eq_some.mpr ⟨c, h, rfl⟩)
    have before : (s.chains.links p).elim [] Link.arrived =
        (s.connections p).elim [] Connection.arrived := by
      simp only [chains]
      cases s.connections p <;> rfl
    rwa [before] at arrived
  · obtain ⟨q, i, payload, rfl, found, broken⟩ := not_returns returns
    have same := (valid.thrown found broken).2.2 p
    rw [h, Option.map_some, eq_comm, Option.map_eq_some_iff] at same
    obtain ⟨d, hd, arrived⟩ := same
    rw [hd, ← arrived]
    exact List.prefix_append _ _

theorem Parsed.log_step (ok : s.Parsed T) (e : Event) : s.log <+: (s.step T e).log := by
  by_cases running : s.fault = none
  swap
  · exact ⟨[], by rw [List.append_nil, step_stopped running]⟩
  have valid := ok.valid running
  by_cases returns : s.Returns T e
  · exact (step_chains valid.sound valid.consistent returns).2.log_begins
  · obtain ⟨q, i, payload, rfl, found, broken⟩ := not_returns returns
    obtain ⟨d, handler, current, hd, threw⟩ := valid.threw found broken
    rw [threw]
    exact List.prefix_append _ _

section Drain

variable {p : Protocol} {c : Connection}

theorem Valid.next (valid : s.Valid) (h : s.connections p = some c)
    (known : p ∈ s.handler.clients) (busy : ¬ (c.Waiting ∨ c.Failed)) :
    ∃ e : Event, e.On p ∧ (Nears T s p c e ∨ (s.step T e).fault ≠ none) := by
  have link : s.chains.links p = some c.link := links_eq_some.mpr ⟨c, h, rfl⟩
  obtain ⟨⟨op, result⟩, reads⟩ : ∃ o, c.reads = [o] :=
    List.length_eq_one_iff.mp ((valid.consistent.chain p _ link).trans (if_pos known))
  obtain ⟨i, hi⟩ : ∃ i : Nat, c.transport.socket.ops[i]? = some ⟨.own op, result⟩ :=
    Connection.exists_read (by rw [reads]; exact List.mem_cons_self)
  cases result with
  | none =>
    have enough : op.size ≤ c.unread.length := by
      by_contra few
      exact busy (.inl ⟨op, reads, Nat.lt_of_not_le few⟩)
    exact ⟨.finish p i (.ok ()), rfl, .inl (nears_finish valid.sound.running h reads hi enough)⟩
  | some r =>
    have finished : ready c.transport.socket.ops i = some (.own op, r) := by simp [ready, hi]
    refine ⟨.run p i, rfl, ?_⟩
    cases r with
    | error ec => exact absurd (.inr ⟨op, ec, reads⟩) busy
    | ok bytes =>
      cases op with
      | frameSize => exact .inl (nears_frameSize valid h reads finished)
      | frameData n =>
        cases decoded : T.request bytes with
        | ok request => exact .inl (nears_frameData valid h reads finished decoded)
        | error e =>
          have frame : (Event.run p i).payload? s = some bytes := by
            simp [Event.payload?, h, finished]
          have broken : ¬ T.Decodes bytes := by
            rintro ⟨r, accepted⟩
            rw [decoded] at accepted
            cases accepted
          refine .inr ?_
          rw [valid.throws frame broken]
          simp

theorem Parsed.drain (ok : s.Parsed T) (h : s.connections p = some c)
    (known : p ∈ s.handler.clients) : ∃ es : List Event, (∀ e ∈ es, e.On p) ∧
      (run (Server.step T) s es).Parsed T ∧ ((run (Server.step T) s es).fault ≠ none ∨
        ∃ c', (run (Server.step T) s es).connections p = some c' ∧ c'.arrived = c.arrived ∧
          (c'.Waiting ∨ c'.Failed)) := by
  obtain ⟨es, own, ⟨kept, still⟩, idle⟩ := exists_run_to (Server.step T)
    (I := fun s => s.Parsed T ∧ (s.fault = none → p ∈ s.handler.clients ∧
      ∃ c', s.connections p = some c' ∧ c'.arrived = c.arrived))
    (G := fun s => s.fault ≠ none ∨ ∃ c', s.connections p = some c' ∧ (c'.Waiting ∨ c'.Failed))
    (E := fun e => e.On p)
    (fun s => if s.fault = none then (s.chains.links p).elim 0 Link.work + 1 else 0)
    (fun s kept busy => by
      obtain ⟨ok, still⟩ := kept
      have running : s.fault = none := by
        by_contra dead
        exact busy (.inl dead)
      obtain ⟨known, c', hc', same⟩ := still running
      obtain ⟨e, own, nears | dead⟩ :=
        (ok.valid running).next (T := T) hc' known fun idle => busy (.inr ⟨c', hc', idle⟩)
      · obtain ⟨l, hl, arrived, less⟩ := nears.link
        obtain ⟨d, hd, rfl⟩ := links_eq_some.mp hl
        refine ⟨e, own, ⟨ok.step e, fun _ => ⟨nears.clients ▸ known, d, hd, arrived.trans same⟩⟩,
          ?_⟩
        rw [hl, links_eq_some.mpr ⟨c', hc', rfl⟩, if_pos running]
        split
        · exact Nat.succ_lt_succ less
        · exact Nat.succ_pos _
      · refine ⟨e, own, ⟨ok.step e, fun still => absurd still dead⟩, ?_⟩
        rw [if_neg dead, if_pos running]
        exact Nat.succ_pos _)
    ⟨ok, fun _ => ⟨known, c, h, rfl⟩⟩
  refine ⟨es, own, kept, ?_⟩
  by_cases dead : (run (Server.step T) s es).fault = none
  · obtain ⟨-, c', hc', same⟩ := still dead
    obtain ⟨c'', hc'', idle⟩ := idle.resolve_left (not_not.mpr dead)
    obtain rfl := Option.some.inj (hc'.symm.trans hc'')
    exact .inr ⟨c', hc', same, idle⟩
  · exact .inl dead

end Drain

/-- What the server has made of whatever has arrived on its connections. -/
structure AnyStream (T : Thrift) (s : Server) : Prop where
  /-- No assertion has failed, and nothing undefined was done. -/
  stopped : s.fault = none ∨ s.fault = some .thriftException
  /-- The program has ended just if some frame could not be decoded. -/
  running : s.fault = none ↔ ∀ p, ∀ payload ∈ processed p s.log, T.Decodes payload
  inOrder : ∀ p c, s.connections p = some c → encodeFrames (processed p s.log) <+: c.arrived
  complete : s.fault = none → ∀ p c, s.connections p = some c → c.Waiting →
    processed p s.log = (sizedFrames.parse c.arrived).1.map (List.drop 4)
  /-- The reads of a client get to all the frames that have arrived, or one of the reads fails, or
  one of the frames ends the program. -/
  goesOn : s.fault = none → ∀ p c, s.connections p = some c → p ∈ s.handler.clients →
    ∃ es : List Event, (∀ e ∈ es, e.On p) ∧ ((run (step T) s es).fault ≠ none ∨
      ∃ c', (run (step T) s es).connections p = some c' ∧ (c'.Failed ∨
        processed p (run (step T) s es).log =
          (sizedFrames.parse c.arrived).1.map (List.drop 4)))

/-- Whatever arrives on its connections, and however they are interleaved, the server takes each
stream apart into its frames, and it ends at the first frame that cannot be decoded and not before
that. -/
theorem frames_of_any_stream (T : Thrift) (es : List Event) :
    AnyStream T (run (step T) create es) := by
  have ok : (run (step T) create es).Parsed T :=
    run_invariant (fun _ e kept => kept.step e) parsed_create es
  refine ⟨ok.stopped, ⟨ok.decodes, fun all => ?_⟩, ok.taken, fun running p c h waiting => ?_,
    fun running p c h known => ?_⟩
  · by_contra dead
    obtain ⟨p, payload, mem, broken⟩ := ok.broken dead
    exact broken (all p payload mem)
  · obtain ⟨frames, streamed⟩ := ok.streamed running
    exact processed_waiting streamed h waiting
  · obtain ⟨es', own, ok', stopped⟩ := ok.drain h known
    refine ⟨es', own, ?_⟩
    by_cases dead : (run (step T) (run (step T) create es) es').fault = none
    · obtain ⟨c', hc', same, idle⟩ := stopped.resolve_left (not_not.mpr dead)
      obtain ⟨frames, streamed⟩ := ok'.streamed dead
      refine .inr ⟨c', hc', idle.symm.imp_right fun waiting => ?_⟩
      rw [processed_waiting streamed hc' waiting, same]
    · exact .inl dead

end Server

end ThriftAsio
