import ThriftAsio.Teardown

/-! Which connection the bytes of a frame come from. `close()` empties the receive buffer, but
the frame that `process` is in the middle of keeps its header, and a receive that had finished
before still appends its bytes; so a frame may begin on one connection and end on the next. -/

namespace ThriftAsio
open Proactor Asio Machine

def OneConnection (bytes : List Arrived) : Prop := ∀ a ∈ bytes, ∀ b ∈ bytes, a.1 = b.1

/-- The complete frames are each of one connection, and so is what is left. -/
structure Unmixed (bytes : List Arrived) : Prop where
  frames : ∀ f ∈ (arrivedFrames.parse bytes).1, OneConnection f
  rest : OneConnection (arrivedFrames.parse bytes).2

theorem OneConnection.mono {bytes part : List Arrived} (h : OneConnection bytes)
    (sub : part ⊆ bytes) : OneConnection part := fun a ha b hb => h a (sub ha) b (sub hb)

theorem oneConnection_append {bytes more : List Arrived} (h : OneConnection bytes)
    (h' : OneConnection more) (same : ∀ a ∈ bytes, ∀ b ∈ more, a.1 = b.1) :
    OneConnection (bytes ++ more) := by
  intro a ha b hb
  rcases List.mem_append.mp ha with ha | ha <;> rcases List.mem_append.mp hb with hb | hb
  · exact h a ha b hb
  · exact same a ha b hb
  · exact (same b hb a ha).symm
  · exact h' a ha b hb

theorem OneConnection.unmixed {bytes : List Arrived} (h : OneConnection bytes) :
    Unmixed bytes := by
  have whole := arrivedFrames.parse_join bytes
  refine ⟨fun f hf => h.mono fun b hb => ?_, h.mono fun b hb => ?_⟩ <;> rw [← whole]
  · exact List.mem_append_left _ (List.mem_flatten.mpr ⟨f, hf, hb⟩)
  · exact List.mem_append_right _ hb

theorem Unmixed.append {bytes more : List Arrived} (h : Unmixed bytes)
    (same : OneConnection ((arrivedFrames.parse bytes).2 ++ more)) : Unmixed (bytes ++ more) := by
  have later := same.unmixed
  have cut := FrameFormat.parse_append (F := arrivedFrames) bytes more
  refine ⟨?_, by rw [cut]; exact later.rest⟩
  rw [cut]
  intro f hf
  rcases List.mem_append.mp hf with hf | hf
  · exact h.frames f hf
  · exact later.frames f hf

theorem Unmixed.header {bytes : List Arrived} (h : Unmixed bytes) (n : Nat) (hn : n ≤ 4) :
    OneConnection (bytes.take n) := by
  by_cases complete : arrivedFrames.Complete bytes
  · have first := h.frames (bytes.take (arrivedFrames.frameLength bytes)) (by
      rw [FrameFormat.parse_complete complete]
      exact List.mem_cons_self)
    have shorter : n ≤ arrivedFrames.frameLength bytes := hn.trans (Nat.le_add_right 4 _)
    exact first.mono (List.take_subset_take_left _ shorter)
  · have all := h.rest
    rw [FrameFormat.parse_incomplete complete] at all
    exact all.mono (List.take_subset _ _)

theorem not_unmixed_append {bytes more : List Arrived} (one : OneConnection more)
    {a b : Arrived} (ha : a ∈ (arrivedFrames.parse bytes).2) (hb : b ∈ more)
    (differ : a.1 ≠ b.1) : ¬ Unmixed (bytes ++ more) := by
  intro pure
  have cut := FrameFormat.parse_append (F := arrivedFrames) bytes more
  by_cases whole : arrivedFrames.Complete ((arrivedFrames.parse bytes).2 ++ more)
  · have longer :=
      FrameFormat.frameLength_gt (F := arrivedFrames) (FrameFormat.parse_rest bytes) more
    rw [FrameFormat.parse_complete whole] at cut
    have frame := pure.frames _ (by rw [cut]; exact List.mem_append_right _ List.mem_cons_self)
    rw [List.take_append] at frame
    have some_more : (more.take (arrivedFrames.frameLength ((arrivedFrames.parse bytes).2 ++ more) -
        (arrivedFrames.parse bytes).2.length)) ≠ [] := by
      rw [ne_eq, List.take_eq_nil_iff]
      rintro (h | rfl)
      · omega
      · cases hb
    obtain ⟨b', hb'⟩ := List.exists_mem_of_ne_nil _ some_more
    have both := frame a (List.mem_append_left _ (by rwa [List.take_of_length_le longer.le]))
      b' (List.mem_append_right _ hb')
    exact differ (both.trans (one b' (List.mem_of_mem_take hb') b hb))
  · rw [FrameFormat.parse_incomplete whole] at cut
    have rest := pure.rest
    rw [cut] at rest
    exact differ (rest a (List.mem_append_left _ ha) b (List.mem_append_right _ hb))

theorem boundary_of_pieces {pieces : List (List Arrived)} (pure : ∀ p ∈ pieces, OneConnection p)
    {before after : List Arrived} {b : Arrived} (cut : pieces.flatten = before ++ b :: after)
    (first : ∀ a ∈ before, a.1 ≠ b.1) :
    ∃ whole piece rest, pieces = whole ++ piece :: rest ∧ before = whole.flatten := by
  induction pieces generalizing before with
  | nil => simp at cut
  | cons p pieces ih =>
    rcases List.append_eq_append_iff.mp (cut.symm.trans List.flatten_cons) with
      ⟨inside, hp, hrest⟩ | ⟨inside, hbefore, hrest⟩
    · cases before with
      | nil => exact ⟨[], p, pieces, rfl, rfl⟩
      | cons a before =>
        cases inside with
        | nil =>
          refine ⟨[p], ?_⟩
          cases pieces with
          | nil => simp at hrest
          | cons q pieces => exact ⟨q, pieces, rfl, by simpa using hp.symm⟩
        | cons b' inside =>
          -- b and the bytes before it would be in one piece
          have same : b' = b := by simpa using (List.cons.inj hrest).1.symm
          have one := pure p List.mem_cons_self a (by rw [hp]; simp) b' (by rw [hp]; simp)
          exact absurd (one.trans (by rw [same])) (first a List.mem_cons_self)
    · subst hbefore
      obtain ⟨whole, piece, rest, hpieces, hinside⟩ :=
        ih (fun q hq => pure q (List.mem_cons_of_mem p hq)) hrest
          fun a ha => first a (List.mem_append_right p ha)
      exact ⟨p :: whole, piece, rest, by rw [hpieces]; rfl, by rw [hinside, List.flatten_cons]⟩

namespace Client

def pendingBytes (c : Client) : List Arrived := c.reading.header ++ c.transport.incommingBytes

/-- The beginning of a frame whose end has not been received. -/
def unfinished (c : Client) : List Arrived := (arrivedFrames.parse c.pendingBytes).2

def consumed (c : Client) : List Arrived := c.frames.flatten ++ c.reading.header

/-- Bytes that a receive appends belong to the connection whose frame they continue. -/
def ContinuesOwn (c : Client) (e : Event) : Prop :=
  ∀ i bytes, e = .run i → ready c.transport.socket.ops i = some (.asyncReceive, .ok bytes) →
    ∀ a ∈ c.unfinished, ∀ b ∈ bytes, a.1 = b.1

/-- Every decoded frame is from one connection, and the first byte consumed from a connection
comes after whole frames. -/
structure FramesUnmixed (c : Client) : Prop where
  decoded : ∀ f ∈ c.frames, arrivedFrames.IsFrame f ∧ OneConnection f
  boundary : ∀ before b after, c.consumed = before ++ b :: after →
    (∀ a ∈ before, a.1 ≠ b.1) → ∃ whole, whole <+: c.frames ∧ before = whole.flatten

structure Unmixing (c : Client) : Prop where
  header : ∀ header, c.reading = .payload header → header.length = 4
  delivers : c.transport.socket.Delivers OneConnection
  decoded : ∀ f ∈ c.frames, arrivedFrames.IsFrame f ∧ OneConnection f
  pending : Unmixed c.pendingBytes

theorem Unmixing.header_le {c : Client} (ok : c.Unmixing) : c.reading.header.length ≤ 4 := by
  cases h : c.reading with
  | idle => simp [Reading.header]
  | size => simp [Reading.header]
  | payload header => exact (ok.header header h).le

theorem Unmixing.header_pure {c : Client} (ok : c.Unmixing) :
    OneConnection c.reading.header := by
  have first := ok.pending.header c.reading.header.length ok.header_le
  rwa [pendingBytes, List.take_left'] at first
  rfl

theorem Unmixing.framesUnmixed {c : Client} (ok : c.Unmixing) : c.FramesUnmixed := by
  refine ⟨ok.decoded, fun before b after cut first => ?_⟩
  have pure : ∀ p ∈ c.frames ++ [c.reading.header], OneConnection p := by
    intro p hp
    rcases List.mem_append.mp hp with hp | hp
    · exact (ok.decoded p hp).2
    · rw [List.mem_singleton.mp hp]
      exact ok.header_pure
  have flat : (c.frames ++ [c.reading.header]).flatten = before ++ b :: after := by
    simpa [consumed] using cut
  obtain ⟨whole, piece, rest, split, hbefore⟩ := boundary_of_pieces pure flat first
  refine ⟨whole, ?_, hbefore⟩
  have shorter : whole.length ≤ c.frames.length := by
    have lengths := congrArg List.length split
    simp only [List.length_append, List.length_cons, List.length_nil] at lengths
    omega
  exact List.prefix_of_prefix_length_le ⟨piece :: rest, split.symm⟩
    (List.prefix_append _ _) shorter

theorem Unmixing.stay {c d : Client} (ok : c.Unmixing) (reading : d.reading = c.reading)
    (frames : d.frames = c.frames) (delivers : d.transport.socket.Delivers OneConnection)
    (bytes : d.transport.incommingBytes = c.transport.incommingBytes ∨
      d.transport.incommingBytes = []) : d.Unmixing := by
  refine ⟨by rw [reading]; exact ok.header, delivers, by rw [frames]; exact ok.decoded, ?_⟩
  rcases bytes with same | dropped
  · rw [pendingBytes, reading, same]
    exact ok.pending
  · rw [pendingBytes, reading, dropped, List.append_nil]
    exact ok.header_pure.unmixed

theorem Unmixing.receive {c d : Client} (ok : c.Unmixing) (reading : d.reading = c.reading)
    (frames : d.frames = c.frames) (delivers : d.transport.socket.Delivers OneConnection)
    {bytes : List Arrived} (pure : OneConnection bytes)
    (appended : d.transport.incommingBytes = c.transport.incommingBytes ++ bytes)
    (own : ∀ a ∈ c.unfinished, ∀ b ∈ bytes, a.1 = b.1) : d.Unmixing := by
  refine ⟨by rw [reading]; exact ok.header, delivers, by rw [frames]; exact ok.decoded, ?_⟩
  rw [pendingBytes, reading, appended, ← List.append_assoc]
  exact ok.pending.append (oneConnection_append ok.pending.rest pure own)

theorem Unmixing.update {c : Client} (ok : c.Unmixing) : c.update.Unmixing := by
  unfold Client.update
  split
  · rename_i idle
    split
    · refine ⟨by simp, ok.delivers, ok.decoded, ?_⟩
      have pending := ok.pending
      rwa [pendingBytes, idle] at pending
    · exact ok
  · exact ok

theorem Unmixing.read {c : Client} (ok : c.Unmixing) : c.read.Unmixing := by
  unfold Client.read
  split
  · exact ok
  · rename_i size
    split
    · exact ok
    · rename_i header rest h
      obtain ⟨enough, rfl, rfl⟩ := Transport.read_some h
      have pending := ok.pending
      refine ⟨?_, ok.delivers, ok.decoded, ?_⟩
      · rintro header ⟨⟩
        simp only [List.length_take]
        omega
      · simpa [pendingBytes, Reading.header, size] using pending
  · rename_i header payload
    split
    · exact ok
    · rename_i body rest h
      obtain ⟨enough, rfl, rfl⟩ := Transport.read_some h
      have frame : arrivedFrames.IsFrame (header ++ c.transport.incommingBytes.take
          (arrivedFrames.payloadLength header)) :=
        FrameFormat.isFrame_append (ok.header header payload) (List.length_take_of_le enough).symm
      have cut := FrameFormat.parse_frame_append frame
        (c.transport.incommingBytes.drop (arrivedFrames.payloadLength header))
      have pending := ok.pending
      rw [pendingBytes, payload, Reading.header,
        ← List.take_append_drop (arrivedFrames.payloadLength header) c.transport.incommingBytes,
        ← List.append_assoc] at pending
      have pure := pending.frames
      have rest := pending.rest
      rw [cut] at pure rest
      refine ⟨by simp, ok.delivers, ?_, fun f hf => pure f (List.mem_cons_of_mem _ hf), rest⟩
      intro f hf
      rcases List.mem_append.mp hf with hf | hf
      · exact ok.decoded f hf
      · rw [List.mem_singleton.mp hf]
        exact ⟨frame, pure _ List.mem_cons_self⟩

theorem Unmixing.after {c : Client} (ok : c.Unmixing) (o : Outcome (ClientTransport Arrived))
    (delivers : o.state.socket.Delivers OneConnection)
    (bytes : o.state.incommingBytes = c.transport.incommingBytes ∨
      o.state.incommingBytes = []) : (c.after o).Unmixing := by
  obtain ⟨timers, calls, h⟩ := after_eq c o
  rw [h]
  exact ok.stay rfl rfl delivers bytes

theorem unmixing_create (query : Query) : (create query).Unmixing :=
  ⟨by simp [create], by simp [create, Socket.Delivers, ClientTransport.open',
    ClientTransport.create, Transport.create], by simp [create],
    OneConnection.unmixed (by simp [OneConnection, pendingBytes, create, Reading.header,
      ClientTransport.open', ClientTransport.create, Transport.create])⟩

theorem oneConnection_arrive (c : Client) (bytes : List UInt8) :
    OneConnection (c.arrive bytes) := by
  intro a ha b hb
  obtain ⟨_, _, rfl⟩ := List.mem_map.mp ha
  obtain ⟨_, _, rfl⟩ := List.mem_map.mp hb
  rfl

theorem Unmixing.taking {c : Client} (ok : c.Unmixing) (i : Nat) :
    Unmixing { c with transport := c.taking i } :=
  ⟨ok.header, ok.delivers.take i, ok.decoded, ok.pending⟩

theorem Unmixing.run {c : Client} (ok : c.Unmixing) {i : Nat} {op : SocketOp ConnectOp}
    {r : Completion Arrived} (h : ready c.transport.socket.ops i = some (op, r))
    (own : c.ContinuesOwn (.run i)) : (c.after ((c.taking i).handle op r)).Unmixing := by
  have delivers : ((c.taking i).handle op r).state.socket.Delivers OneConnection :=
    ClientTransport.delivers_handle (ok.delivers.take i) op r
  rcases (c.taking i).handle_incommingBytes op r with same | dropped | ⟨bytes, rfl, rfl, more⟩
  · exact (ok.taking i).after _ delivers (.inl same)
  · exact (ok.taking i).after _ delivers (.inr dropped)
  · obtain ⟨timers, calls, returned⟩ := after_eq c ((c.taking i).handle .asyncReceive (.ok bytes))
    rw [returned]
    exact ok.receive rfl rfl delivers (ok.delivers _ (ready_mem h) bytes rfl) more
      (own i bytes rfl h)

theorem Unmixing.step {c : Client} (ok : c.Unmixing) {e : Event} (own : c.ContinuesOwn e) :
    (c.step e).Unmixing := by
  by_cases dead : c.fault ≠ none
  · rw [step_dead dead]
    exact ok
  rw [step_running (not_not.mp dead)]
  cases e with
  | connectTo query => exact ok.after _ (ClientTransport.delivers_close ok.delivers) (.inr rfl)
  | send frame =>
    exact ok.stay rfl rfl (ClientTransport.delivers_write ok.delivers frame)
      (.inl (Transport.write_incommingBytes _ _))
  | update => exact ok.update
  | read => exact ok.read
  | finish i r =>
    refine ok.stay rfl rfl (ok.delivers.finish i fun bytes h => ?_) (.inl rfl)
    cases r with
    | error ec => simp [Except.map] at h
    | ok data =>
      obtain rfl : c.arrive data = bytes := by simpa [Except.map] using h
      exact oneConnection_arrive c data
  | nextEndpoint i =>
    refine ok.stay rfl rfl (ClientTransport.delivers_nextEndpoint ok.delivers i) (.inl ?_)
    simp only [act, ClientTransport.nextEndpoint]
    split <;> rfl
  | run i =>
    simp only [act]
    cases h : ready c.transport.socket.ops i with
    | none => exact ok
    | some found => exact ok.run h own
  | resolved i r => exact ok.stay rfl rfl ok.delivers (.inl rfl)
  | runResolve i =>
    simp only [act]
    cases ready c.transport.resolver i with
    | none => exact ok
    | some found =>
      have delivers := ClientTransport.delivers_onResolve
        (t := { c.transport with resolver := c.transport.resolver.eraseIdx i })
        ok.delivers found.1 found.2
      refine ok.after _ delivers ?_
      rcases found with ⟨query, ec | u⟩
      · exact .inr rfl
      · exact .inl rfl
  | expire i => exact ok.stay rfl rfl ok.delivers (.inl rfl)
  | runWait i =>
    simp only [act]
    cases ready c.timers.waits i with
    | none => exact ok
    | some found =>
      rcases found with ⟨timer, ec | u⟩
      · exact ok.stay rfl rfl ok.delivers (.inl rfl)
      · exact ok.stay rfl rfl ok.delivers (.inl rfl)

/-- A receive that continues a frame of another connection leaves a mixed frame to be read. -/
theorem mixed_of_not_continuesOwn {c : Client} (ok : c.Unmixing) (running : c.fault = none)
    {e : Event} (other : ¬ c.ContinuesOwn e) : ¬ Unmixed (c.step e).pendingBytes := by
  simp only [ContinuesOwn] at other
  push Not at other
  obtain ⟨i, bytes, rfl, h, a, ha, b, hb, differ⟩ := other
  intro pure
  obtain ⟨timers, calls, returned⟩ := after_eq c ((c.taking i).handle .asyncReceive (.ok bytes))
  have appended : (c.step (.run i)).pendingBytes = c.pendingBytes ++ bytes := by
    rw [step_running running]
    simp only [act, h, returned]
    simp [pendingBytes, ClientTransport.handle, ClientTransport.base, Transport.handle,
      Transport.onReceive, taking, Transport.take]
  rw [appended] at pure
  exact not_unmixed_append (ok.delivers _ (ready_mem h) bytes rfl) ha hb differ pure

/-- As long as every receive continues a frame of its own connection, every frame the processor
decodes is from one connection, and a new connection starts with a frame. -/
theorem framesUnmixed_of_continuesOwn (query : Query) (es : List Event)
    (own : Along Client.step ContinuesOwn (create query) es) :
    (Machine.run Client.step (create query) es).FramesUnmixed := by
  have ok : (Machine.run Client.step (create query) es).Unmixing :=
    run_invariant_along (I := Unmixing) (fun _ _ ok own => ok.step own) (unmixing_create query) own
  exact ok.framesUnmixed

theorem framesUnmixed_first_frame : (Machine.run Client.step (create home) (connecting ++
    [.finish 0 (.ok [0, 0, 0, 1, 9]), .run 0, .update, .read, .read])).FramesUnmixed :=
  framesUnmixed_of_continuesOwn home _
    ⟨nofun, nofun, nofun, by rintro i bytes ⟨⟩ ⟨⟩, nofun, by
      intro i bytes _ _ a ha
      have nothing : a ∈ (arrivedFrames.parse ([] : List Arrived)).2 := ha
      simp at nothing, nofun, nofun, nofun, trivial⟩

/-- The connection is lost in the middle of a payload; the next one finishes the frame. -/
theorem reconnect_mixes_frame :
    let c := Machine.run Client.step (create home) (connecting ++
      [.finish 0 (.ok [0, 0, 0, 2, 7]), .run 0, .update, .read, .finish 0 (.error .eof), .run 0,
        .expire 0, .runWait 0] ++ connecting ++ [.finish 0 (.ok [0, 0, 0, 0]), .run 0, .read])
    c.fault = none ∧ c.frames = [[(1, 0), (1, 0), (1, 0), (1, 2), (2, 0), (2, 0)]] ∧
      ¬ c.FramesUnmixed := by
  intro c
  have frames : c.frames = [[(1, 0), (1, 0), (1, 0), (1, 2), (2, 0), (2, 0)]] := by decide
  refine ⟨by decide, frames, fun ok => ?_⟩
  have one := (ok.decoded _ (by rw [frames]; exact List.mem_cons_self)).2
  exact absurd (one (1, 0) (by simp) (2, 0) (by simp)) (by decide)

end Client

end ThriftAsio
