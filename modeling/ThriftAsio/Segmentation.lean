import ThriftAsio.BinaryProtocol
import ThriftAsio.ClientFrames
import ThriftAsio.Listener

/-! What the client makes of the stream of a connection. `read()` takes from the front of the
bytes that `on_receive` appends, so neither the cuts between the receives nor the times at which
`update()` and `update_one()` are called show in the messages. -/

namespace ThriftAsio
open Proactor Asio Machine

namespace Client

def arrivals (c : Client) : Event → List Arrived
  | .run i =>
    match ready c.transport.socket.ops i with
    | some (.asyncReceive, .ok bytes) => bytes
    | _ => []
  | _ => []

def wants (c : Client) : Option Nat :=
  match c.reading with
  | .idle => none
  | .size => some 4
  | .payload header => some (arrivedFrames.payloadLength header)

def returns (c : Client) : Event → List Arrived
  | .read => (c.wants.bind c.transport.toTransport.read).elim [] Prod.fst
  | _ => []

/-- `update()` is at the head of its loop without bytes, or waits in `read()` for more. -/
def Settled (c : Client) : Prop :=
  match c.wants with
  | none => c.transport.incommingBytes = []
  | some n => c.transport.availableBytes < n

/-- The step runs no `close()`. -/
def StaysUp (c : Client) (e : Event) : Prop :=
  (c.step e).calls.count .onDisconnected = c.calls.count .onDisconnected

instance (c : Client) : DecidablePred c.StaysUp := fun _ => inferInstanceAs (Decidable (_ = _))

theorem after_up {c : Client} {o : Outcome (ClientTransport Arrived)}
    (up : (c.after o).calls.count .onDisconnected = c.calls.count .onDisconnected) :
    Callback.onDisconnected ∉ o.calls := by
  rw [after_calls, List.count_append] at up
  exact List.count_eq_zero.mp (by omega)

theorem run_incommingBytes {c : Client} {i : Nat}
    (up : (c.act (.run i)).calls.count .onDisconnected = c.calls.count .onDisconnected) :
    (c.act (.run i)).reading = c.reading ∧ (c.act (.run i)).transport.incommingBytes =
      c.transport.incommingBytes ++ c.arrivals (.run i) := by
  cases found : ready c.transport.socket.ops i with
  | none => simp [act, arrivals, found]
  | some x =>
    obtain ⟨op, r⟩ := x
    simp only [act, found] at up ⊢
    have silent := after_up up
    obtain ⟨timers, calls, h⟩ := after_eq c ((c.taking i).handle op r)
    rw [h]
    refine ⟨rfl, ?_⟩
    cases r with
    | error ec => exact absurd (by simp [ClientTransport.handle_error]) silent
    | ok bytes =>
      simp only [arrivals, found]
      have appended := (c.taking i).handle_ok_incommingBytes op bytes
      cases op <;> exact appended

theorem runResolve_incommingBytes {c : Client} {i : Nat}
    (up : (c.act (.runResolve i)).calls.count .onDisconnected =
      c.calls.count .onDisconnected) :
    (c.act (.runResolve i)).reading = c.reading ∧
      (c.act (.runResolve i)).transport.incommingBytes = c.transport.incommingBytes := by
  cases found : ready c.transport.resolver i with
  | none => simp [act, found]
  | some x =>
    obtain ⟨query, r⟩ := x
    simp only [act, found] at up ⊢
    have silent := after_up up
    obtain ⟨timers, calls, h⟩ := after_eq c (ClientTransport.onResolve
      { c.transport with resolver := c.transport.resolver.eraseIdx i } query r)
    rw [h]
    refine ⟨rfl, ?_⟩
    cases r with
    | error ec => exact absurd (by simp [ClientTransport.onResolve_error]) silent
    | ok u => rfl

theorem step_incommingBytes {c : Client} (running : c.fault = none) {e : Event}
    (up : c.StaysUp e) (other : e ≠ .read) (idle : e ≠ .update) :
    (c.step e).reading = c.reading ∧ (c.step e).transport.incommingBytes =
      c.transport.incommingBytes ++ c.arrivals e := by
  unfold StaysUp at up
  rw [step_running running] at up ⊢
  cases e with
  | connectTo query => exact absurd (by simp [ClientTransport.connectTo, ClientTransport.close,
      ClientTransport.base, Transport.close]) (after_up up)
  | send frame => exact ⟨rfl, by simp [act, arrivals]⟩
  | update => exact absurd rfl idle
  | read => exact absurd rfl other
  | finish i r => exact ⟨rfl, by simp [act, arrivals, Transport.finish]⟩
  | nextEndpoint i =>
    refine ⟨rfl, ?_⟩
    simp only [act, arrivals, ClientTransport.nextEndpoint, List.append_nil]
    split <;> rfl
  | run i => exact run_incommingBytes up
  | resolved i r => exact ⟨rfl, by simp [act, arrivals]⟩
  | runResolve i =>
    obtain ⟨reading, bytes⟩ := runResolve_incommingBytes up
    exact ⟨reading, bytes.trans (List.append_nil _).symm⟩
  | expire i => exact ⟨rfl, by simp [act, arrivals]⟩
  | runWait i =>
    cases found : ready c.timers.waits i with
    | none => simp [act, arrivals, found]
    | some x =>
      obtain ⟨timer, ec | u⟩ := x
      · simp [act, arrivals, found, onWait, onCallback, onError, reconnectIn]
      · simp [act, arrivals, found, onWait, ClientTransport.open']

theorem returns_append (c : Client) :
    c.returns .read ++ c.read.transport.incommingBytes = c.transport.incommingBytes := by
  unfold returns wants read
  cases c.reading with
  | idle => rfl
  | size =>
    simp only [Option.bind_some]
    cases h : c.transport.toTransport.read 4 with
    | none => rfl
    | some found =>
      obtain ⟨-, hbytes, hrest⟩ := Transport.read_some h
      simp only [hbytes, hrest, Option.elim_some, List.take_append_drop]
  | payload header =>
    simp only [Option.bind_some]
    cases h : c.transport.toTransport.read (arrivedFrames.payloadLength header) with
    | none => rfl
    | some found =>
      obtain ⟨-, hbytes, hrest⟩ := Transport.read_some h
      simp only [hbytes, hrest, Option.elim_some, List.take_append_drop]

theorem read_wants {c : Client} {n : Nat} (wants : c.wants = some n)
    (few : c.transport.availableBytes < n) : c.read = c := by
  unfold read
  unfold Client.wants at wants
  split
  · rfl
  · rename_i size
    rw [size] at wants
    obtain rfl := Option.some.inj wants
    simp only [Transport.read, if_pos few]
  · rename_i header reading
    rw [reading] at wants
    obtain rfl := Option.some.inj wants
    simp only [Transport.read, if_pos few]

end Client

namespace Listener

variable {T : ClientThrift} {l : Listener}

theorem replace_unread (empty : l.unread = []) : l.replace.unread = [] := by
  unfold replace
  split
  · rfl
  · exact empty

theorem other_unread (empty : l.unread = []) (e : Client.Event) : (l.other e).unread = [] := by
  unfold other
  split
  · exact replace_unread empty
  · exact empty

theorem act_other (T : ClientThrift) (l : Listener) {e : Client.Event} (notRead : e ≠ .read)
    (notUpdate : e ≠ .update) : l.act T e = l.other e := by
  cases e <;> first | contradiction | rfl

/-- The bytes that a step hands to `on_receive`; none once a fault has ended the program. -/
def arrivals (l : Listener) (e : Client.Event) : List Arrived :=
  if l.client.fault.isSome then [] else l.client.arrivals e

def returns (l : Listener) (e : Client.Event) : List Arrived :=
  if l.client.fault.isSome then [] else l.client.returns e

theorem step_account {e : Client.Event} (up : l.client.StaysUp e) :
    l.returns e ++ (l.step T e).client.transport.incommingBytes =
      l.client.transport.incommingBytes ++ l.arrivals e := by
  by_cases dead : l.client.fault ≠ none
  · simp [returns, arrivals, step_dead T dead, Option.isSome_iff_ne_none.mpr dead]
  have running := not_not.mp dead
  have going : l.client.fault.isSome = false := by simp [running]
  simp only [returns, arrivals, going, Bool.false_eq_true, if_false, step_running T running]
  by_cases isRead : e = .read
  · subst isRead
    simp only [act, (read_same T l).1, Client.returns_append, Client.arrivals, List.append_nil]
  by_cases isUpdate : e = .update
  · subst isUpdate
    simp only [act, (update_same T l).1, Client.returns, Client.arrivals, List.append_nil,
      List.nil_append]
  · have client : (l.act T e).client = l.client.step e := by
      cases e <;> first | contradiction | exact other_client l _
    have silent : l.client.returns e = [] := by
      cases e <;> first | contradiction | rfl
    rw [client, silent, (Client.step_incommingBytes running up isRead isUpdate).2, List.nil_append]

theorem account (es : List Client.Event)
    (up : Along (step T) (fun l e => l.client.StaysUp e) l es) :
    collect (step T) returns l es ++ (run (step T) l es).client.transport.incommingBytes =
      l.client.transport.incommingBytes ++ collect (step T) arrivals l es := by
  induction es generalizing l with
  | nil => exact (List.append_nil _).symm
  | cons e es ih =>
    rw [collect, run_cons, List.append_assoc, ih up.2, ← List.append_assoc, step_account up.1,
      collect, List.append_assoc]

abbrev Messages := List (Bytes × TalkClientIf)

def stream (messages : Messages) : Bytes := encodeFrames (messages.map Prod.fst)

def WellFormed (T : ClientThrift) (messages : Messages) : Prop :=
  ∀ m ∈ messages, m.1.length < 2 ^ 32 ∧ T.Whole m.1 (.call m.2)

/-- Where the client stands in the stream: it has processed some messages, and what it holds of
the next frames is the rest of what was received. -/
structure Hears (messages : Messages) (before : List TalkClientIf) (l : Listener)
    (received : List Arrived) (heard : Messages) : Prop where
  first : heard <+: messages
  invoked : l.invoked = before ++ heard.map Prod.snd
  held : stream heard ++ l.client.pendingBytes.map Prod.snd = received.map Prod.snd
  unread : l.unread = []
  header : ∀ header, l.client.reading = .payload header → header.length = 4

section Hears

variable {messages heard : Messages} {before : List TalkClientIf} {received : List Arrived}

theorem stream_append (ms ms' : Messages) : stream (ms ++ ms') = stream ms ++ stream ms' := by
  simp [stream, encodeFrames]

theorem stream_cons (m : Bytes × TalkClientIf) (ms : Messages) :
    stream (m :: ms) = encodeFrame m.1 ++ stream ms := rfl

theorem WellFormed.isFrame (wellFormed : WellFormed T messages) {m : Bytes × TalkClientIf}
    (h : m ∈ messages) : sizedFrames.IsFrame (encodeFrame m.1) :=
  isFrame_encodeFrame (wellFormed m h).1

theorem Hears.next (ok : Hears messages before l received heard)
    (wellFormed : WellFormed T messages) (sent : received.map Prod.snd <+: stream messages)
    {header : List Arrived} (reading : l.client.reading = .payload header)
    (enough : arrivedFrames.payloadLength header ≤ l.client.transport.incommingBytes.length) :
    ∃ m, heard ++ [m] <+: messages ∧
      (l.client.transport.incommingBytes.take (arrivedFrames.payloadLength header)).map Prod.snd =
        m.1 ∧ header.map Prod.snd ++ m.1 = encodeFrame m.1 := by
  obtain ⟨ahead, rfl⟩ := ok.first
  have four := ok.header header reading
  rw [← ok.held, stream_append, List.prefix_append_right_inj] at sent
  obtain ⟨later, rest⟩ := sent
  rw [Client.pendingBytes, reading, Reading.header] at rest
  cases ahead with
  | nil =>
    have short := congrArg List.length rest
    simp [stream, encodeFrames, four] at short
  | cons m ahead =>
    have length : bigEndian (header.map Prod.snd) =
        ((l.client.transport.incommingBytes.take
          (arrivedFrames.payloadLength header)).map Prod.snd).length := by
      rw [List.length_map, List.length_take_of_le enough]
      rfl
    have frame : sizedFrames.IsFrame _ :=
      FrameFormat.isFrame_append ((List.length_map _).trans four) length
    have split : header.map Prod.snd ++
        (l.client.transport.incommingBytes.take
          (arrivedFrames.payloadLength header)).map Prod.snd ++
        ((l.client.transport.incommingBytes.drop
          (arrivedFrames.payloadLength header)).map Prod.snd ++ later) =
        encodeFrame m.1 ++ stream ahead := by
      rw [← stream_cons, ← rest, List.map_append, List.append_assoc, List.append_assoc,
        ← List.append_assoc (List.map _ (List.take _ _)), ← List.map_append, List.take_append_drop]
    have same := frame.append_inj (wellFormed.isFrame (by simp)) split
    have payload := congrArg (List.drop 4) same
    rw [drop_encodeFrame, List.drop_left' (by rw [List.length_map, four])] at payload
    refine ⟨m, ⟨ahead, by simp⟩, payload, ?_⟩
    rw [← same, payload]

theorem Hears.payload (ok : Hears messages before l received heard)
    (wellFormed : WellFormed T messages) (sent : received.map Prod.snd <+: stream messages)
    (running : l.client.fault = none) {header : List Arrived}
    (reading : l.client.reading = .payload header)
    (enough : arrivedFrames.payloadLength header ≤ l.client.transport.incommingBytes.length) :
    ∃ m, Hears messages before (l.step T .read) received (heard ++ [m]) ∧
      (l.step T .read).client.fault = none ∧ (l.step T .read).client.reading = .idle ∧
      (l.step T .read).client.transport.incommingBytes.length <
        l.client.transport.incommingBytes.length := by
  obtain ⟨m, first, payload, frame⟩ := ok.next wellFormed sent reading enough
  have whole := (wellFormed m (first.subset (by simp))).2
  have step := step_read_payload (T := T) running reading enough
  simp only [payload] at step
  rw [step, onFrame_whole ?_ whole]
  swap
  · exact ok.unread
  refine ⟨m, ⟨first, ?_, ?_, returned_nil_unread _, by simp [returned]⟩, running, rfl, ?_⟩
  · simp [ok.invoked, Incoming.methods]
  · have held := ok.held
    rw [Client.pendingBytes, reading, Reading.header, List.map_append,
      ← List.take_append_drop (arrivedFrames.payloadLength header)
        l.client.transport.incommingBytes, List.map_append, payload,
      ← List.append_assoc (header.map _), frame] at held
    rw [stream_append, ← held, List.append_assoc]
    simp [Client.pendingBytes, Reading.header, returned, stream, encodeFrames]
  · have some : arrivedFrames.payloadLength header ≠ 0 := by
      intro none
      rw [none, List.take_zero, List.map_nil] at payload
      exact whole.1 payload.symm
    simp only [returned, List.length_drop]
    omega

theorem Hears.update (ok : Hears messages before l received heard)
    (running : l.client.fault = none) :
    Hears messages before (l.step T .update) received heard := by
  rw [step_running T running]
  simp only [act, Listener.update]
  split
  · rename_i idle
    split
    · rename_i peek
      rw [if_pos ok.unread]
      have size : l.client.update = { l.client with reading := .size } := by
        simp only [Client.update, idle, peek, if_true]
      rw [size]
      refine ⟨ok.first, ok.invoked, ?_, ok.unread, by simp⟩
      have held := ok.held
      rwa [Client.pendingBytes, idle] at held
    · exact ok
  · exact ok

theorem Hears.read (ok : Hears messages before l received heard)
    (wellFormed : WellFormed T messages) (sent : received.map Prod.snd <+: stream messages)
    (running : l.client.fault = none) :
    ∃ more, Hears messages before (l.step T .read) received (heard ++ more) := by
  cases reading : l.client.reading with
  | idle =>
    refine ⟨[], ?_⟩
    rw [List.append_nil, step_running T running]
    simp only [act, Listener.read, Client.read, reading]
    exact ok
  | size =>
    refine ⟨[], ?_⟩
    rw [List.append_nil]
    by_cases enough : 4 ≤ l.client.transport.incommingBytes.length
    · rw [step_read_size running reading enough]
      refine ⟨ok.first, ok.invoked, ?_, ok.unread, ?_⟩
      · have held := ok.held
        rw [Client.pendingBytes, reading] at held
        rw [← held]
        simp [Client.pendingBytes, Reading.header]
      · rintro header ⟨⟩
        exact List.length_take_of_le enough
    · have waits : l.client.read = l.client :=
        Client.read_wants (by rw [Client.wants, reading]) (Nat.lt_of_not_le enough)
      rw [step_running T running]
      simp only [act, Listener.read, reading, waits]
      exact ok
  | payload header =>
    by_cases enough :
        arrivedFrames.payloadLength header ≤ l.client.transport.incommingBytes.length
    · obtain ⟨m, kept, -⟩ := ok.payload wellFormed sent running reading enough
      exact ⟨[m], kept⟩
    · refine ⟨[], ?_⟩
      have few : l.client.transport.availableBytes < arrivedFrames.payloadLength header :=
        Nat.lt_of_not_le enough
      rw [List.append_nil, step_running T running]
      simp only [act, Listener.read, reading, Transport.read, if_pos few]
      exact ok

theorem Hears.other (ok : Hears messages before l received heard)
    (running : l.client.fault = none) {e : Client.Event} (up : l.client.StaysUp e)
    (notRead : e ≠ .read) (notUpdate : e ≠ .update) :
    Hears messages before (l.other e) (received ++ l.client.arrivals e) heard := by
  obtain ⟨reading, bytes⟩ := Client.step_incommingBytes running up notRead notUpdate
  refine ⟨ok.first, by rw [other_invoked, ok.invoked], ?_, other_unread ok.unread e, ?_⟩
  · rw [List.map_append, ← ok.held, Client.pendingBytes, other_client, reading, bytes,
      List.append_assoc, ← List.map_append, Client.pendingBytes, List.append_assoc]
  · rw [other_client, reading]
    exact ok.header

theorem Hears.step (ok : Hears messages before l received heard)
    (wellFormed : WellFormed T messages) {e : Client.Event} (up : l.client.StaysUp e)
    (sent : received.map Prod.snd <+: stream messages) :
    ∃ more, Hears messages before (l.step T e) (received ++ l.arrivals e) (heard ++ more) := by
  by_cases dead : l.client.fault ≠ none
  · refine ⟨[], ?_⟩
    simpa [arrivals, step_dead T dead, Option.isSome_iff_ne_none.mpr dead] using ok
  have running := not_not.mp dead
  have came : l.arrivals e = l.client.arrivals e := if_neg (by simp [running])
  by_cases isRead : e = .read
  · subst isRead
    obtain ⟨more, kept⟩ := ok.read wellFormed sent running
    exact ⟨more, by rw [came]; simpa [Client.arrivals] using kept⟩
  refine ⟨[], ?_⟩
  rw [List.append_nil, came]
  by_cases isUpdate : e = .update
  · subst isUpdate
    simpa [Client.arrivals] using ok.update (T := T) running
  · rw [step_running T running, act_other T l isRead isUpdate]
    exact ok.other running up isRead isUpdate

theorem Hears.part (ok : Hears messages before l received heard) (settled : l.client.Settled) :
    ¬ sizedFrames.Complete (l.client.pendingBytes.map Prod.snd) := by
  rintro ⟨size, whole⟩
  change 4 ≤ _ at size
  rw [List.length_map] at size
  rw [Client.pendingBytes] at size whole
  cases reading : l.client.reading with
  | idle =>
    have empty : l.client.transport.incommingBytes = [] := by
      simpa only [Client.Settled, Client.wants, reading] using settled
    simp [reading, Reading.header, empty] at size
  | size =>
    have few : l.client.transport.availableBytes < 4 := by
      simpa only [Client.Settled, Client.wants, reading] using settled
    rw [reading] at size
    exact absurd size (Nat.not_le.mpr few)
  | payload header =>
    have four := ok.header header reading
    have few : l.client.transport.availableBytes < arrivedFrames.payloadLength header := by
      simpa only [Client.Settled, Client.wants, reading] using settled
    have start : ((header ++ l.client.transport.incommingBytes).map Prod.snd).take 4 =
        header.map Prod.snd := by
      rw [← List.map_take, List.take_left' four]
    rw [reading, Reading.header] at whole
    change 4 + bigEndian (List.take 4 _) ≤ _ at whole
    rw [start, List.length_map, List.length_append, four] at whole
    exact absurd (Nat.le_of_add_le_add_left whole) (Nat.not_le.mpr few)

theorem Hears.settled (ok : Hears messages before l received heard)
    (wellFormed : WellFormed T messages) (settled : l.client.Settled) :
    (sizedFrames.parse (received.map Prod.snd)).1.map (List.drop 4) = heard.map Prod.fst := by
  rw [← ok.held]
  refine parse_encodeFrames ?_ (ok.part settled)
  intro f hf
  obtain ⟨m, hm, rfl⟩ := List.mem_map.mp hf
  exact (wellFormed m (ok.first.subset hm)).1

/-- A bound for what the loop of `update()` can do until more arrives. -/
def work (l : Listener) : Nat :=
  3 * l.client.transport.incommingBytes.length +
    match l.client.reading with
    | .idle => 2
    | .size => 1
    | .payload _ => 0

def Polls (e : Client.Event) : Prop := e = .update ∨ e = .read

theorem Hears.nears (ok : Hears messages before l received heard)
    (wellFormed : WellFormed T messages) (sent : received.map Prod.snd <+: stream messages)
    (running : l.client.fault = none) (opened : l.client.transport.isOpen = true)
    (busy : ¬ l.client.Settled) : ∃ e, Polls e ∧
      (∃ more, Hears messages before (l.step T e) received (heard ++ more)) ∧
      (l.step T e).client.fault = none ∧ (l.step T e).client.transport.isOpen = true ∧
      work (l.step T e) < work l := by
  cases reading : l.client.reading with
  | idle =>
    have some : l.client.transport.incommingBytes ≠ [] := by
      simpa only [Client.Settled, Client.wants, reading] using busy
    have step := step_update (T := T) running reading ok.unread
      (by simp [Transport.peek, opened, some])
    refine ⟨.update, .inl rfl, ⟨[], ?_⟩, by rw [step, running], by rw [step, opened], ?_⟩
    · rw [List.append_nil]
      exact ok.update running
    · simp only [step, work, reading]
      omega
  | size =>
    have enough : ¬ l.client.transport.availableBytes < 4 := by
      simpa only [Client.Settled, Client.wants, reading] using busy
    have step := step_read_size (T := T) running reading (Nat.le_of_not_lt enough)
    refine ⟨.read, .inr rfl, ok.read wellFormed sent running, by rw [step, running],
      by rw [step]; exact opened, ?_⟩
    rw [Transport.availableBytes] at enough
    simp only [step, work, reading, List.length_drop]
    omega
  | payload header =>
    have enough : ¬ l.client.transport.availableBytes < arrivedFrames.payloadLength header := by
      simpa only [Client.Settled, Client.wants, reading] using busy
    obtain ⟨m, kept, still, idle, less⟩ :=
      ok.payload wellFormed sent running reading (Nat.le_of_not_lt enough)
    refine ⟨.read, .inr rfl, ⟨[m], kept⟩, still, ?_, ?_⟩
    · rw [step_running T running, act, (read_same T l).1, Transport.isOpen,
        (Client.read_same l.client).2.1]
      exact opened
    · simp only [work, idle, reading]
      omega

theorem Hears.drain (ok : Hears messages before l received heard)
    (wellFormed : WellFormed T messages) (sent : received.map Prod.snd <+: stream messages)
    (running : l.client.fault = none) (opened : l.client.transport.isOpen = true) :
    ∃ es, (∀ e ∈ es, Polls e) ∧ (run (Listener.step T) l es).client.Settled := by
  obtain ⟨es, own, -, settled⟩ := exists_run_to (Listener.step T)
    (I := fun l => (∃ heard, Hears messages before l received heard) ∧ l.client.fault = none ∧
      l.client.transport.isOpen = true)
    (G := fun l => l.client.Settled) (E := Polls) work
    (fun l kept busy => by
      obtain ⟨⟨heard, ok⟩, running, opened⟩ := kept
      obtain ⟨e, own, ⟨more, kept⟩, still, isOpen, less⟩ :=
        ok.nears (T := T) wellFormed sent running opened busy
      exact ⟨e, own, ⟨⟨_, kept⟩, still, isOpen⟩, less⟩)
    ⟨⟨heard, ok⟩, running, opened⟩
  exact ⟨es, own, settled⟩

end Hears

/-- Nothing of the connection's stream has been received yet, and nothing older is left. -/
structure AtStart (l : Listener) : Prop where
  idle : l.client.reading = .idle
  incommingBytes : l.client.transport.incommingBytes = []
  unread : l.unread = []

def pieces (payload : Bytes) : List Client.Event :=
  [.finish 0 (.ok ((encodeFrame payload).take 3)), .run 0, .update,
    .finish 0 (.ok (((encodeFrame payload).drop 3).take 9)), .run 0, .read,
    .finish 0 (.ok ((encodeFrame payload).drop 12)), .run 0, .read]

end Listener

end ThriftAsio
