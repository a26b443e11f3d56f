import ThriftAsio.ReadChains

/-! What the server makes of the byte stream of a connection. The bytes that arrived are the
frames already processed, then what the chain of reads has in hand, then what is not read; so a
chain takes the stream apart into the frames it was made of, whatever the other chains do. -/

namespace ThriftAsio
open Proactor Asio Machine

def Call.payload? (p : Protocol) : Call → Option (List UInt8)
  | .process q payload _ => if q = p then some payload else none
  | _ => none

/-- The call of `process` that is under way after a call: none may begin before it returns. -/
def Call.nest : Option Protocol → Call → Option (Option Protocol)
  | none, .process p _ _ => some (some p)
  | some _, .process _ _ _ => none
  | under, .processReturned p => if under = some p then some none else none
  | under, _ => some under

def processed (p : Protocol) (log : List Call) : List (List UInt8) :=
  log.filterMap (Call.payload? p)

/-- The bytes of the current frame that a read stands for: those of the size it has read or was
made from, and those of the data it has read. -/
def inHand : Op ReadOp (Completion UInt8) → List UInt8
  | ⟨.frameSize, some (.ok size)⟩ => size
  | ⟨.frameData n, none⟩ => toBigEndian 4 n
  | ⟨.frameData n, some (.ok payload)⟩ => toBigEndian 4 n ++ payload
  | _ => []

structure ReadDone (o : Op ReadOp (Completion UInt8)) : Prop where
  size : ∀ n, o.kind = .frameData n → n < 2 ^ 32
  bytes : ∀ bytes, o.result = some (.ok bytes) → bytes.length = o.kind.size

def Unfailed (o : Op ReadOp (Completion UInt8)) : Prop := ∀ ec, o.result ≠ some (.error ec)

theorem processed_append (p : Protocol) (log more : List Call) :
    processed p (log ++ more) = processed p log ++ processed p more := List.filterMap_append

theorem processed_sent (p : Protocol) (sent : List (Protocol × OutMessage)) :
    processed p (sent.map fun m => .sent m.1 m.2) = [] := by
  simp [processed, List.filterMap_map, Function.comp_def, Call.payload?]

theorem Chains.processed_serving (a : Chains) (p q : Protocol) (payload : List UInt8)
    (answer : Answer) :
    processed q (a.serving p payload answer) = if p = q then [payload] else [] := by
  rw [Chains.serving, processed_append, processed_append, processed_sent]
  by_cases same : p = q
  · subst same
    simp [processed, List.filterMap_cons, Call.payload?]
  · simp [processed, List.filterMap_cons, Call.payload?, same]

namespace Chains

/-- The client of every connection sends the given frames. -/
structure Streamed (frames : Protocol → List (List UInt8)) (a : Chains) : Prop where
  small : ∀ p, ∀ payload ∈ frames p, payload.length < 2 ^ 32
  sent : ∀ p l, a.links p = some l → l.arrived <+: encodeFrames (frames p)
  fresh : ∀ p, a.links p = none → processed p a.log = []
  taken : ∀ p, processed p a.log <+: frames p
  arrived : ∀ p l, a.links p = some l → encodeFrames (processed p a.log) <+: l.arrived
  done : ∀ p l o, a.links p = some l → o ∈ l.reads → ReadDone o
  chain : ∀ p l o, a.links p = some l → o ∈ l.reads → Unfailed o →
    encodeFrames (processed p a.log) ++ inHand o ++ l.unread = l.arrived

variable {frames : Protocol → List (List UInt8)} {a : Chains}

theorem Streamed.next (ok : a.Streamed frames) {p : Protocol} {l : Link}
    (link : a.links p = some l) {n : Nat} {payload : List UInt8}
    (read : (⟨.frameData n, some (.ok payload)⟩ : Op ReadOp (Completion UInt8)) ∈ l.reads) :
    payload.length < 2 ^ 32 ∧ inHand ⟨.frameData n, some (.ok payload)⟩ = encodeFrame payload ∧
      processed p a.log ++ [payload] <+: frames p := by
  have done := ok.done p l _ link read
  have length : payload.length = n := done.bytes payload rfl
  have small : payload.length < 2 ^ 32 := length ▸ done.size n rfl
  have frame : inHand ⟨.frameData n, some (.ok payload)⟩ = encodeFrame payload := by
    rw [encodeFrame, length]
    rfl
  have chain := ok.chain p l _ link read (by simp [Unfailed])
  have all : encodeFrames (processed p a.log ++ [payload]) ++ l.unread = l.arrived := by
    rw [← chain, frame]
    simp [encodeFrames]
  have sent : encodeFrames (processed p a.log ++ [payload]) ++ l.unread <+:
      encodeFrames (frames p) := all ▸ ok.sent p l link
  refine ⟨small, frame, payloads_prefix (fun f hf => ?_) (ok.small p) sent⟩
  rcases List.mem_append.mp hf with hf | hf
  · exact ok.small p f ((ok.taken p).subset hf)
  · rw [List.mem_singleton.mp hf]
    exact small

theorem Streamed.update (ok : a.Streamed frames) {b : Chains} {p : Protocol} {l : Link}
    (links : b.links = Function.update a.links p (some l))
    (others : ∀ q, p ≠ q → processed q b.log = processed q a.log)
    (sent : l.arrived <+: encodeFrames (frames p)) (taken : processed p b.log <+: frames p)
    (arrived : encodeFrames (processed p b.log) <+: l.arrived) (done : ∀ o ∈ l.reads, ReadDone o)
    (chain : ∀ o ∈ l.reads, Unfailed o →
      encodeFrames (processed p b.log) ++ inHand o ++ l.unread = l.arrived) :
    b.Streamed frames := by
  have own : ∀ {k}, b.links p = some k → l = k := by
    intro k hk
    simpa [links] using hk
  have other : ∀ {q}, p ≠ q → b.links q = a.links q := by
    intro q hq
    rw [links, Function.update_of_ne (Ne.symm hq)]
  refine ⟨ok.small, fun q k hk => ?_, fun q hq => ?_, fun q => ?_, fun q k hk => ?_,
    fun q k o hk ho => ?_, fun q k o hk ho unfailed => ?_⟩ <;> by_cases same : p = q
  · subst same
    rwa [← own hk]
  · exact ok.sent q k (other same ▸ hk)
  · simp [links, same] at hq
  · rw [others q same]
    exact ok.fresh q (other same ▸ hq)
  · exact same ▸ taken
  · rw [others q same]
    exact ok.taken q
  · subst same
    rwa [← own hk]
  · rw [others q same]
    exact ok.arrived q k (other same ▸ hk)
  · subst same
    exact done o (own hk ▸ ho)
  · exact ok.done q k o (other same ▸ hk) ho
  · subst same
    obtain rfl := own hk
    exact chain o ho unfailed
  · rw [others q same]
    exact ok.chain q k o (other same ▸ hk) ho unfailed

theorem Streamed.setLink (ok : a.Streamed frames) {p : Protocol} {l l' : Link}
    (link : a.links p = some l) (arrived : l.arrived <+: l'.arrived)
    (sent : l'.arrived <+: encodeFrames (frames p)) (done : ∀ o ∈ l'.reads, ReadDone o)
    (chain : ∀ o ∈ l'.reads, Unfailed o →
      encodeFrames (processed p a.log) ++ inHand o ++ l'.unread = l'.arrived) :
    (a.setLink p l').Streamed frames :=
  ok.update rfl (fun _ _ => rfl) sent (ok.taken p) ((ok.arrived p l link).trans arrived) done chain

theorem started_read {r : Option (Completion UInt8)} (next : Started r) (op : ReadOp)
    (small : ∀ n, op = .frameData n → n < 2 ^ 32) :
    ReadDone ⟨op, r⟩ ∧ (Unfailed ⟨op, r⟩ → inHand ⟨op, r⟩ = inHand ⟨op, none⟩) := by
  rcases next with rfl | ⟨ec, rfl⟩
  · exact ⟨⟨small, by simp⟩, fun _ => rfl⟩
  · exact ⟨⟨small, by simp⟩, fun unfailed => absurd rfl (unfailed ec)⟩

section Step

variable {p : Protocol} {l : Link}

theorem Streamed.completed (ok : a.Streamed frames) (link : a.links p = some l) {op : ReadOp}
    (reading : l.reads = [⟨op, none⟩]) (enough : op.size ≤ l.unread.length) :
    (a.setLink p ⟨[⟨op, some (.ok (l.unread.take op.size))⟩], l.unread.drop op.size,
      l.arrived⟩).Streamed frames := by
  have running : (⟨op, none⟩ : Op ReadOp (Completion UInt8)) ∈ l.reads := by
    rw [reading]
    exact List.mem_cons_self
  have chain := ok.chain p l _ link running (by simp [Unfailed])
  refine ok.setLink link List.prefix_rfl (ok.sent p l link) (fun o ho => ?_) fun o ho _ => ?_
  · rw [List.mem_singleton.mp ho]
    refine ⟨(ok.done p l _ link running).size, fun bytes h => ?_⟩
    obtain rfl := Except.ok.inj (Option.some.inj h)
    exact List.length_take_of_le enough
  · rw [List.mem_singleton.mp ho, ← chain]
    cases op <;> simp [inHand, ReadOp.size, List.append_assoc]

theorem Streamed.failed (ok : a.Streamed frames) (link : a.links p = some l) (ec : ErrorCode) :
    (a.setLink p { l with reads := cancel (.error ec) l.reads }).Streamed frames := by
  have settled : ∀ o ∈ cancel (.error ec) l.reads, ∃ o' ∈ l.reads, o = o'.settle (.error ec) := by
    intro o ho
    obtain ⟨o', ho', h⟩ := List.mem_map.mp ho
    exact ⟨o', ho', h.symm⟩
  refine ok.setLink link List.prefix_rfl (ok.sent p l link) (fun o ho => ?_)
    fun o ho unfailed => ?_
  · obtain ⟨⟨op, result⟩, ho', rfl⟩ := settled o ho
    have done := ok.done p l _ link ho'
    refine ⟨done.size, fun bytes h => done.bytes bytes ?_⟩
    cases result with
    | none => simp [Op.settle] at h
    | some r => exact h
  · obtain ⟨⟨op, result⟩, ho', rfl⟩ := settled o ho
    cases result with
    | none => exact absurd rfl (unfailed ec)
    | some r => exact ok.chain p l _ link ho' unfailed

theorem Streamed.sized (ok : a.Streamed frames) (link : a.links p = some l) {size : List UInt8}
    (read : l.reads = [⟨.frameSize, some (.ok size)⟩]) {r : Option (Completion UInt8)}
    (next : Started r) :
    (a.setLink p { l with reads := [⟨.frameData (bigEndian size), r⟩] }).Streamed frames := by
  have finished : (⟨.frameSize, some (.ok size)⟩ : Op ReadOp (Completion UInt8)) ∈ l.reads := by
    rw [read]
    exact List.mem_cons_self
  have chain := ok.chain p l _ link finished (by simp [Unfailed])
  have four : size.length = 4 := (ok.done p l _ link finished).bytes size rfl
  have bound := bigEndian_lt size
  rw [four] at bound
  obtain ⟨done, nothing⟩ := started_read next (.frameData (bigEndian size)) (by
    rintro n ⟨⟩
    exact bound)
  have again : toBigEndian 4 (bigEndian size) = size := four ▸ toBigEndian_bigEndian size
  refine ok.setLink link List.prefix_rfl (ok.sent p l link) (fun o ho => ?_)
    fun o ho unfailed => ?_
  · rw [List.mem_singleton.mp ho]
    exact done
  · obtain rfl := List.mem_singleton.mp ho
    rw [nothing unfailed, ← chain]
    exact congrArg (fun x => encodeFrames (processed p a.log) ++ x ++ l.unread) again

theorem Streamed.served (ok : a.Streamed frames) (link : a.links p = some l) {n : Nat}
    {payload : List UInt8} (read : l.reads = [⟨.frameData n, some (.ok payload)⟩])
    {r : Option (Completion UInt8)} (next : Started r) {b : Chains}
    (links : b.links = Function.update a.links p (some { l with reads := [⟨.frameSize, r⟩] }))
    {answer : Answer} (log : b.log = a.log ++ a.serving p payload answer) :
    b.Streamed frames := by
  have finished : (⟨.frameData n, some (.ok payload)⟩ : Op ReadOp (Completion UInt8)) ∈
      l.reads := by
    rw [read]
    exact List.mem_cons_self
  obtain ⟨small, frame, taken⟩ := ok.next link finished
  have chain := ok.chain p l _ link finished (by simp [Unfailed])
  obtain ⟨done, nothing⟩ := started_read next .frameSize (by rintro n ⟨⟩)
  have after : ∀ q, processed q b.log =
      processed q a.log ++ if p = q then [payload] else [] := by
    intro q
    rw [log, processed_append, processed_serving]
  have own : processed p b.log = processed p a.log ++ [payload] := by rw [after, if_pos rfl]
  have all : encodeFrames (processed p a.log ++ [payload]) ++ l.unread = l.arrived := by
    rw [← chain, frame, encodeFrames_concat]
  refine ok.update links (fun q hq => ?_) (ok.sent p l link) ?_ ?_ (fun o ho => ?_)
    fun o ho unfailed => ?_
  · rw [after, if_neg hq, List.append_nil]
  · rwa [own]
  · rw [own, ← all]
    exact List.prefix_append _ _
  · rw [List.mem_singleton.mp ho]
    exact done
  · obtain rfl := List.mem_singleton.mp ho
    have empty : inHand ⟨.frameSize, none⟩ = [] := rfl
    rw [own, nothing unfailed, ← all, empty, List.append_nil]

end Step

theorem Streamed.step {T : Thrift} {i : Option Input} {b : Chains} (ok : a.Streamed frames)
    (sends : ∀ p bytes l, i = some (p, bytes) → a.links p = some l →
      l.arrived ++ bytes <+: encodeFrames (frames p))
    (h : Step T i a b) : b.Streamed frames := by
  cases h with
  | stutter => exact ok
  | completed link reading enough => exact ok.completed link reading enough
  | failed link ec => exact ok.failed link ec
  | sized link read next => exact ok.sized link read next
  | served link read decoded served next => exact ok.served link read next rfl rfl
  | @arrived _ p l link bytes =>
    refine ok.setLink link (List.prefix_append _ _) (sends p bytes l rfl link)
      (fun o ho => ok.done p l o link ho) fun o ho unfailed => ?_
    rw [← ok.chain p l o link ho unfailed, List.append_assoc]
    simp
  | @accepted _ p h fresh made =>
    have nothing : ∀ q, processed q (a.log ++ [.connected p a.handler.made]) =
        processed q a.log := by simp [processed, Call.payload?]
    refine ok.update rfl (fun q _ => nothing q) List.nil_prefix ?_ ?_ (fun o ho => ?_)
      fun o ho _ => ?_
    · rw [nothing, ok.fresh p fresh]
      exact List.nil_prefix
    · rw [nothing, ok.fresh p fresh]
      exact List.nil_prefix
    · rw [List.mem_singleton.mp ho]
      exact ⟨by rintro n ⟨⟩, by rintro bytes ⟨⟩⟩
    · rw [List.mem_singleton.mp ho, nothing, ok.fresh p fresh]
      rfl
  | @disconnected _ p l link op ec failed h erased =>
    have nothing : ∀ q, processed q (a.log ++ [.disconnected p]) = processed q a.log := by
      simp [processed, Call.payload?]
    refine ok.update rfl (fun q _ => nothing q) (ok.sent p l link) ?_ ?_ (fun o ho => ?_)
      fun o ho _ => ?_
    · rw [nothing]
      exact ok.taken p
    · rw [nothing]
      exact ok.arrived p l link
    · cases ho
    · cases ho

/-- Every call of `process` is for the session made when its connection was accepted, and calls
of `process` do not overlap. -/
structure Attributed (a : Chains) : Prop where
  entered : ∀ (p : Protocol) client, a.handler.clients[p]? = some client →
    .connected p client ∈ a.log
  current : ∀ before after p payload current,
    a.log = before ++ .process p payload current :: after →
      ∃ client, current = some client ∧ .connected p client ∈ before
  apart : a.log.foldlM Call.nest none = some none

theorem nest_serving (a : Chains) (p : Protocol) (payload : List UInt8) (answer : Answer) :
    (a.serving p payload answer).foldlM Call.nest none = some none := by
  have inside : ∀ sent : List (Protocol × OutMessage),
      (sent.map fun m => Call.sent m.1 m.2).foldlM Call.nest (some p) = some (some p) := by
    intro sent
    induction sent with
    | nil => rfl
    | cons m sent ih => exact ih
  rw [serving, List.foldlM_append, List.foldlM_append]
  change ((List.foldlM Call.nest (some p) _).bind _ : Option (Option Protocol)) = _
  rw [inside]
  simp [Call.nest]

theorem Attributed.append {a b : Chains} (ok : a.Attributed) {more : List Call}
    (log : b.log = a.log ++ more)
    (entered : ∀ (p : Protocol) client, b.handler.clients[p]? = some client →
      a.handler.clients[p]? = some client ∨ .connected p client ∈ more)
    (current : ∀ p payload current, .process p payload current ∈ more →
      a.handler.clients[p]? = current ∧ current ≠ none)
    (apart : more.foldlM Call.nest none = some none) : b.Attributed := by
  refine ⟨fun p client known => ?_, fun before after p payload client split => ?_, ?_⟩
  · rw [log, List.mem_append]
    exact (entered p client known).imp (ok.entered p client) id
  · rw [log] at split
    rcases List.append_eq_append_iff.mp split with ⟨between, rfl, rest⟩ | ⟨between, old, rest⟩
    · have new : .process p payload client ∈ more := by simp [rest]
      obtain ⟨known, present⟩ := current p payload client new
      obtain ⟨c, rfl⟩ := Option.ne_none_iff_exists'.mp present
      exact ⟨c, rfl, List.mem_append_left _ (ok.entered p c known)⟩
    · cases between with
      | nil =>
        have new : .process p payload client ∈ more := by
          rw [List.nil_append] at rest
          simp [← rest]
        obtain ⟨known, present⟩ := current p payload client new
        obtain ⟨c, rfl⟩ := Option.ne_none_iff_exists'.mp present
        rw [List.append_nil] at old
        exact ⟨c, rfl, old ▸ ok.entered p c known⟩
      | cons x between =>
        obtain ⟨rfl, -⟩ := List.cons.inj rest
        exact ok.current before between p payload client old
  · rw [log, List.foldlM_append, ok.apart]
    exact apart

theorem Attributed.step {T : Thrift} {i : Option Input} {b : Chains} (ok : a.Attributed)
    (consistent : a.Consistent) (h : Step T i a b) : b.Attributed := by
  have moved : ∀ p l, (a.setLink p l).Attributed := fun p l => ⟨ok.entered, ok.current, ok.apart⟩
  cases h with
  | stutter => exact ok
  | arrived link bytes => exact moved _ _
  | completed link reading enough => exact moved _ _
  | failed link ec => exact moved _ _
  | sized link read next => exact moved _ _
  | @served _ p l link n payload read request decoded answer served r next =>
    have connected : p ∈ a.handler.clients :=
      (consistent.reading link (by rw [read]; exact List.mem_cons_self)).1
    have clients := Handler.serve_clients served
    refine ok.append rfl (fun q client known => ?_) (fun q payload' client called => ?_)
      (nest_serving a p payload answer)
    · rw [clients] at known
      exact .inl known
    · simp only [serving, List.mem_append, List.mem_cons, List.mem_map, List.not_mem_nil,
        or_false, reduceCtorEq, false_or, and_false, exists_false, Call.process.injEq] at called
      obtain ⟨rfl, rfl, rfl⟩ := called
      exact ⟨rfl, by rw [Std.ExtTreeMap.getElem?_eq_some_getElem connected]; simp⟩
  | @accepted _ p h fresh made =>
    obtain ⟨-, -, -, -, clients⟩ := Handler.connected_spec made
    refine ok.append rfl (fun q client known => ?_) (by simp) rfl
    rw [clients] at known
    split at known
    · subst ‹p = q›
      obtain rfl := Option.some.inj known
      exact .inr List.mem_cons_self
    · exact .inl known
  | @disconnected _ p l link op ec failed h erased =>
    obtain ⟨-, rfl⟩ := Handler.disconnected_spec erased
    refine ok.append rfl (fun q client known => .inl ?_) (by simp) rfl
    simp only [Std.ExtTreeMap.getElem?_erase] at known
    split at known
    · cases known
    · exact known

end Chains

end ThriftAsio
