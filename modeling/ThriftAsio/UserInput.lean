import ThriftAsio.Agreement
import ThriftAsio.InputLoop

/-! What becomes of what the user types. While reads from the terminal do not overlap, it waits in
the buffer until the handlers take it out, line by line and in order. The lines taken for names are
what the client asks for, and so what the room hears of it. -/

namespace ThriftAsio
open Proactor Asio Machine

namespace Terminal

theorem getline_parts (buffer : Bytes) :
    (getline buffer).1 ++ (if (lineLength buffer).isSome then [newline] else []) ++
      (getline buffer).2 = buffer := by
  cases found : lineLength buffer with
  | none => simp [getline, found]
  | some n =>
    obtain ⟨i, first, rfl⟩ := Option.map_eq_some_iff.mp found
    obtain ⟨inside, isNewline, -⟩ := List.findIdx?_eq_some_iff_getElem.mp first
    have ends : buffer[i] = newline := by simpa using isNewline
    rw [getline_found found, Nat.add_sub_cancel, Option.isSome_some, if_pos rfl, List.append_assoc,
      ← ends, List.singleton_append, ← List.drop_eq_getElem_cons, List.take_append_drop]

theorem newline_not_mem_getline (buffer : Bytes) : newline ∉ (getline buffer).1 := by
  cases found : lineLength buffer with
  | none =>
    have without := List.findIdx?_eq_none_iff.mp (Option.map_eq_none_iff.mp found)
    intro mem
    simp only [getline, found] at mem
    simpa using without newline mem
  | some n =>
    obtain ⟨i, first, rfl⟩ := Option.map_eq_some_iff.mp found
    obtain ⟨inside, -, before⟩ := List.findIdx?_eq_some_iff_getElem.mp first
    intro mem
    rw [getline_found found, Nat.add_sub_cancel] at mem
    obtain ⟨j, short, here⟩ := List.mem_take_iff_getElem.mp mem
    have less : j < i := lt_of_lt_of_le short (Nat.min_le_left _ _)
    exact before j less (by simp [here])

/-- What the read at `i` gets of a chunk: all of it, unless there is no room. -/
def accepts (t : Terminal) (i : Nat) (chunk : Bytes) : Bytes :=
  match t.reads[i]? with
  | some ⟨_, none⟩ => if (t.inputBuffer ++ chunk).length ≤ maxSize then chunk else []
  | _ => []

theorem typed_inputBuffer (t : Terminal) (i : Nat) (chunk : Bytes) :
    (t.typed i chunk).inputBuffer = t.inputBuffer ++ t.accepts i chunk := by
  cases read : t.reads[i]? with
  | none => simp [typed, accepts, read]
  | some o =>
    obtain ⟨prompt, _ | r⟩ := o
    · simp only [typed, accepts, read]
      split
      · split <;> rfl
      · exact (List.append_nil _).symm
    · simp [typed, accepts, read]

end Terminal

namespace TalkClient

structure Taken where
  prompt : Prompt
  line : Bytes
  /-- It was there with its newline. -/
  whole : Bool

def Taken.bytes (x : Taken) : Bytes := x.line ++ if x.whole then [Terminal.newline] else []

def Taken.name? (x : Taken) : Option Bytes :=
  if x.prompt = .username ∧ x.line ≠ [] then some x.line else none

/-- What the handler of a read that has found a line takes out. `read_username` leaves an empty line
where it is. -/
def takenBy (buffer : Bytes) (prompt : Prompt) (length : Nat) : List Taken :=
  if prompt = .message ∨ 1 < length then
    [⟨prompt, (Terminal.getline buffer).1, (Terminal.lineLength buffer).isSome⟩]
  else []

def takes (s : TalkClient) : Event → List Taken
  | .runStdin i =>
    if s.listener.client.fault.isSome then []
    else
      match ready s.terminal.reads i with
      | some (prompt, .ok length) => takenBy s.terminal.inputBuffer prompt length
      | _ => []
  | _ => []

def input (s : TalkClient) : Event → Bytes
  | .typed i chunk =>
    if s.listener.client.fault.isSome then [] else s.terminal.accepts i chunk
  | _ => []

def names (taken : List Taken) : List Bytes := taken.filterMap Taken.name?

variable {T : ClientThrift} {s : TalkClient}

def sends (T : ClientThrift) (names : List Bytes) : List Client.Event :=
  names.map fun name => .send (T.setUserName name)

/-- Something is taken from the front of the buffer and something put behind it, and the names that
are taken are sent. -/
structure Moves (T : ClientThrift) (s s' : TalkClient) (taken : List Taken) (put : Bytes) :
    Prop where
  buffer : taken.flatMap Taken.bytes ++ s'.terminal.inputBuffer = s.terminal.inputBuffer ++ put
  asked : s'.asked = s.asked + (names taken).length
  listener : s'.listener = run (Listener.step T) s.listener (sends T (names taken))

theorem Moves.still {s s' : TalkClient} (buffer : s'.terminal.inputBuffer = s.terminal.inputBuffer)
    (asked : s'.asked = s.asked) (listener : s'.listener = s.listener) : Moves T s s' [] [] :=
  ⟨buffer.trans (List.append_nil _).symm, asked, listener⟩

theorem takenBy_bytes (buffer : Bytes) {prompt : Prompt} {length : Nat}
    (takes : prompt = .message ∨ 1 < length) :
    (takenBy buffer prompt length).flatMap Taken.bytes ++ (Terminal.getline buffer).2 =
      buffer ++ [] := by
  rw [takenBy, if_pos takes, List.flatMap_singleton, Taken.bytes, Terminal.getline_parts,
    List.append_nil]

theorem onLine_ok (s : TalkClient) (prompt : Prompt) (length : Nat) :
    Moves T s (s.onLine T prompt (.ok length)) (takenBy s.terminal.inputBuffer prompt length)
      [] := by
  cases prompt with
  | username =>
    simp only [onLine, onUsername]
    by_cases long : 1 < length
    · have parts := takenBy_bytes s.terminal.inputBuffer
        (.inr long : Prompt.username = .message ∨ 1 < length)
      rw [if_pos long]
      by_cases empty : (Terminal.getline s.terminal.inputBuffer).1 = []
      · rw [if_pos empty]
        refine ⟨parts, ?_, ?_⟩ <;> simp [takenBy, long, names, sends, Taken.name?, empty]
      · rw [if_neg empty]
        refine ⟨parts, ?_, ?_⟩ <;>
          simp [takenBy, long, names, sends, Taken.name?, empty, setUserName]
    · rw [if_neg long, takenBy, if_neg (by simp [long])]
      exact .still rfl rfl rfl
  | message =>
    have parts := takenBy_bytes s.terminal.inputBuffer
      (.inl rfl : Prompt.message = .message ∨ 1 < length)
    simp only [onLine, onMessage]
    split <;> refine ⟨parts, ?_, ?_⟩ <;> simp [takenBy, names, sends, Taken.name?]

theorem step_moves (T : ClientThrift) (s : TalkClient) {e : Event} (own : ∀ e', e ≠ .client e') :
    Moves T s (s.step T e) (s.takes e) (s.input e) := by
  by_cases running : s.listener.client.fault = none
  · rw [step_running T running]
    cases e with
    | client e => exact absurd rfl (own e)
    | typed i chunk =>
      refine ⟨?_, rfl, rfl⟩
      simp only [act, input, running, Option.isSome_none, Bool.false_eq_true, if_false]
      exact s.terminal.typed_inputBuffer i chunk
    | stdinError i ec => exact .still rfl rfl rfl
    | runStdin i =>
      simp only [takes, running, Option.isSome_none, Bool.false_eq_true, if_false]
      cases finished : ready s.terminal.reads i with
      | none =>
        simp only [act, finished]
        exact .still rfl rfl rfl
      | some x =>
        obtain ⟨prompt, ec | length⟩ := x
        · simp only [act, finished]
          cases prompt <;> exact .still rfl rfl rfl
        · simp only [act, finished]
          obtain ⟨buffer, asked, listener⟩ := onLine_ok (T := T) { s with terminal :=
            { s.terminal with reads := s.terminal.reads.eraseIdx i } } prompt length
          exact ⟨buffer, asked, listener⟩
  · have stopped : s.listener.client.fault.isSome := Option.isSome_iff_ne_none.mpr running
    have nothing : s.takes e = [] ∧ s.input e = [] := by
      cases e <;> simp [takes, input, stopped]
    rw [step_dead T running, nothing.1, nothing.2]
    exact .still rfl rfl rfl

theorem step_client (T : ClientThrift) (s : TalkClient) (e : Client.Event) :
    (s.step T (.client e)).terminal.inputBuffer = s.terminal.inputBuffer ∧
      (s.step T (.client e)).asked = s.asked ∧
      (s.step T (.client e)).listener = s.listener.step T e := by
  by_cases running : s.listener.client.fault = none
  · rw [step_running T running, act, client_eq T running, Terminal.foldl_asyncReadUntil]
    exact ⟨rfl, rfl, rfl⟩
  · rw [step_dead T running, Listener.step_dead T running]
    exact ⟨rfl, rfl, rfl⟩

def Found (s : TalkClient) : Prop :=
  ∀ o ∈ s.terminal.reads, ∀ n, o.result = some (.ok n) →
    Terminal.lineLength s.terminal.inputBuffer = some n

theorem lineLength_of_search {buffer : Bytes} {n : Nat}
    (found : Terminal.search buffer = some (.ok n)) : Terminal.lineLength buffer = some n := by
  unfold Terminal.search at found
  split at found
  · rename_i length first
    rw [first]
    exact congrArg some (Except.ok.inj (Option.some.inj found))
  · split at found <;> cases found

theorem Found.asyncReadUntil (ok : s.Found) (prompt : Prompt) :
    Found { s with terminal := s.terminal.asyncReadUntil prompt } := by
  intro o mem n found
  rcases List.mem_append.mp mem with old | new
  · exact ok o old n found
  · rw [List.mem_singleton.mp new] at found
    exact lineLength_of_search found

theorem OneRead.single (one : s.OneRead) {i : Nat} {o : Op Prompt LineRead}
    (read : s.terminal.reads[i]? = some o) : s.terminal.reads = [o] ∧ i = 0 := by
  obtain ⟨inside, here⟩ := List.getElem?_eq_some_iff.mp read
  have first : i = 0 := by
    rw [OneRead] at one
    omega
  obtain ⟨o', single⟩ := List.length_eq_one_iff.mp
    (Nat.le_antisymm one (Nat.lt_of_le_of_lt (Nat.zero_le i) inside))
  subst first
  rw [single, List.getElem?_cons_zero] at read
  rw [single, Option.some.inj read]
  exact ⟨rfl, rfl⟩

theorem Found.typed (ok : s.Found) (one : s.OneRead) (i : Nat) (chunk : Bytes) :
    Found { s with terminal := s.terminal.typed i chunk } := by
  cases read : s.terminal.reads[i]? with
  | none => simpa [Terminal.typed, read] using ok
  | some o =>
    obtain ⟨prompt, _ | r⟩ := o
    · obtain ⟨single, rfl⟩ := one.single read
      simp only [Terminal.typed, read]
      split
      · cases search : Terminal.search (s.terminal.inputBuffer ++ chunk) with
        | none => simp [Found, single]
        | some r =>
          have settled : finish 0 r s.terminal.reads = [⟨prompt, some r⟩] := by
            rw [single]
            rfl
          simp only [Found, settled, List.mem_singleton]
          rintro o rfl n found
          exact lineLength_of_search (search.trans found)
      · exact ok
    · simpa [Terminal.typed, read] using ok

theorem found_onLine (alone : s.terminal.reads = []) (prompt : Prompt) (r : LineRead) :
    (s.onLine T prompt r).Found := by
  have none : ∀ s' : TalkClient, s'.terminal.reads = [] → s'.Found := by
    intro s' nothing o mem
    rw [nothing] at mem
    cases mem
  cases r with
  | error ec => cases prompt <;> exact none _ alone
  | ok length =>
    cases prompt with
    | username =>
      simp only [onLine, onUsername]
      split
      · split
        · exact (none { s with terminal := { s.terminal with
            inputBuffer := (Terminal.getline s.terminal.inputBuffer).2 } } alone).asyncReadUntil _
        · exact none _ alone
      · exact none _ alone
    | message =>
      simp only [onLine, onMessage]
      split
      · exact none _ alone
      · exact (none { s with terminal := { s.terminal with
          inputBuffer := (Terminal.getline s.terminal.inputBuffer).2 } } alone).asyncReadUntil _

theorem Found.step (ok : s.Found) (one : s.OneRead) (e : Event) : (s.step T e).Found := by
  by_cases running : s.listener.client.fault = none
  · rw [step_running T running]
    cases e with
    | client e =>
      rw [act, client_eq T running, Terminal.foldl_asyncReadUntil]
      intro o mem n found
      rcases List.mem_append.mp mem with old | new
      · exact ok o old n found
      · obtain ⟨prompt, -, rfl⟩ := List.mem_map.mp new
        exact lineLength_of_search found
    | typed i chunk => exact ok.typed one i chunk
    | stdinError i ec =>
      refine forall_finish ok (fun o before n found => before n ?_) i
      cases result : o.result with
      | none => simp [Op.settle, result] at found
      | some r => simpa [Op.settle, result] using found
    | runStdin i =>
      cases finished : ready s.terminal.reads i with
      | none =>
        simp only [act, finished]
        exact ok
      | some x =>
        obtain ⟨prompt, r⟩ := x
        simp only [act, finished]
        obtain ⟨single, rfl⟩ := one.single (getElem?_of_ready finished)
        exact found_onLine (by rw [single, List.eraseIdx_cons_zero]) prompt r
  · rw [step_dead T running]
    exact ok

theorem mem_takes {e : Event} {x : Taken} (mem : x ∈ s.takes e) :
    (∃ length, ⟨x.prompt, some (.ok length)⟩ ∈ s.terminal.reads) ∧ x.line = s.terminal.line ∧
      x.whole = (Terminal.lineLength s.terminal.inputBuffer).isSome := by
  cases e with
  | runStdin i =>
    simp only [takes] at mem
    split at mem
    · cases mem
    · split at mem
      · rename_i finished
        rw [takenBy] at mem
        obtain ⟨-, mem⟩ := List.mem_ite_nil_right.mp mem
        rw [List.mem_singleton.mp mem]
        exact ⟨⟨_, ready_mem finished⟩, rfl, rfl⟩
      · cases mem
  | _ => cases mem

theorem Found.whole (ok : s.Found) {e : Event} {x : Taken} (mem : x ∈ s.takes e) :
    x.whole = true := by
  obtain ⟨⟨length, read⟩, -, whole⟩ := mem_takes mem
  rw [whole, ok _ read length rfl]
  rfl

theorem takes_conserves (T : ClientThrift) (s : TalkClient) (e : Event) :
    (s.takes e).flatMap Taken.bytes ++ (s.step T e).terminal.inputBuffer =
      s.terminal.inputBuffer ++ s.input e := by
  cases e with
  | client e => exact (s.step_client T e).1.trans (List.append_nil _).symm
  | _ => exact (s.step_moves T (by simp)).buffer

theorem asked_step (T : ClientThrift) (s : TalkClient) (e : Event) :
    (s.step T e).asked = s.asked + (names (s.takes e)).length := by
  cases e with
  | client e => exact (s.step_client T e).2.1
  | _ => exact (s.step_moves T (by simp)).asked

theorem taken_lines (T : ClientThrift) (query : Query) (es : List Event) :
    let taken := collect (step T) takes (create query) es
    (run (step T) (create query) es).asked = (names taken).length ∧
      ∀ x ∈ taken, Terminal.newline ∉ x.line := by
  refine run_collected (I := fun (s : TalkClient) (taken : List Taken) =>
    s.asked = (names taken).length ∧ ∀ x ∈ taken, Terminal.newline ∉ x.line)
    (C := fun _ _ => True) (h := []) (fun s e h kept _ => ⟨?_, fun x mem => ?_⟩) ⟨rfl, by simp⟩
    (along_of_forall _ fun _ _ => trivial)
  · rw [asked_step, kept.1, names, names, names, List.filterMap_append, List.length_append]
  · rcases List.mem_append.mp mem with old | new
    · exact kept.2 x old
    · rw [(mem_takes new).2.1]
      exact Terminal.newline_not_mem_getline _

theorem taken_whole {query : Query} {es : List Event}
    (one : Along (step T) (fun s _ => s.OneRead) (create query) es) :
    ∀ x ∈ collect (step T) takes (create query) es, x.whole = true := by
  have whole : (run (step T) (create query) es).Found ∧
      ∀ x ∈ collect (step T) takes (create query) es, x.whole = true := by
    refine run_collected (I := fun (s : TalkClient) (taken : List Taken) =>
      s.Found ∧ ∀ x ∈ taken, x.whole = true) (h := [])
      (fun s e h kept one => ⟨kept.1.step one e, fun x mem => ?_⟩) ⟨fun o mem => ?_, by simp⟩ one
    · rcases List.mem_append.mp mem with old | new
      · exact kept.2 x old
      · exact kept.1.whole new
    · cases mem
  exact whole.2

/-- The names asked for are the lines that `read_username` has taken, and no line has a newline in
it. As long as reads from the terminal do not overlap, nothing that the user types is lost, doubled
or mixed up: it is what the handlers have taken, line by line and in order, and what is still in
the buffer. -/
theorem lines_of_input (T : ClientThrift) (query : Query) (es : List Event) :
    let s := run (step T) (create query) es
    let taken := collect (step T) takes (create query) es
    s.asked = (names taken).length ∧ (∀ x ∈ taken, Terminal.newline ∉ x.line) ∧
      (Along (step T) (fun s _ => s.OneRead) (create query) es →
        collect (step T) input (create query) es =
            taken.flatMap Taken.bytes ++ s.terminal.inputBuffer ∧
          ∀ x ∈ taken, x.whole = true) := by
  intro s taken
  have conserved := run_conserves (fun s : TalkClient => s.terminal.inputBuffer)
    (takes_conserves T) (create query) es
  rw [← collect_flatMap (step T) takes Taken.bytes] at conserved
  obtain ⟨asked, lines⟩ := taken_lines T query es
  exact ⟨asked, lines, fun one => ⟨conserved.symm, taken_whole one⟩⟩

def hello : List Event :=
  Client.connecting.map .client ++ [.typed 0 [66], .typed 0 [Terminal.newline, 67], .runStdin 0]

theorem lines_of_input_hello :
    let T := BinaryProtocol.clientLibrary
    let s := run (step T) (create Client.home) hello
    let taken := collect (step T) takes (create Client.home) hello
    taken.flatMap Taken.bytes ++ s.terminal.inputBuffer = [66, Terminal.newline, 67] ∧
      names taken = [[66]] ∧ ∀ x ∈ taken, x.whole = true := by
  obtain ⟨-, -, kept⟩ := lines_of_input BinaryProtocol.clientLibrary Client.home hello
  obtain ⟨input, whole⟩ := kept (by decide +kernel)
  exact ⟨by rw [← input]; decide +kernel, by decide +kernel, whole⟩

end TalkClient

inductive Peer.Act where
  | own (e : Client.Event)
  | call (method : TalkServerIf)

namespace Peer.Act

def event (N : Wire) : Act → Client.Event
  | .own e => e
  | .call method => .send (OutputProtocol.flush (N.writer.talkServerClient method))

def method? : Act → Option TalkServerIf
  | .own _ => none
  | .call method => some method

def step (N : Wire) (x : Listener × List TalkServerIf) (act : Act) :
    Listener × List TalkServerIf :=
  (x.1.step N.library (act.event N), x.2 ++ act.method?.toList)

theorem run_step (N : Wire) (x : Listener × List TalkServerIf) (acts : List Act) :
    run (step N) x acts = (run (Listener.step N.library) x.1 (acts.map (event N)),
      x.2 ++ acts.filterMap method?) := by
  induction acts generalizing x with
  | nil => rw [List.map_nil, List.filterMap_nil, List.append_nil, run_nil, run_nil]
  | cons act acts ih =>
    rw [run_cons, ih, List.map_cons, run_cons]
    cases act <;> simp [step, method?, List.filterMap_cons]

end Peer.Act

/-- What an event of its client or of the stream to it makes the client do. -/
def Peer.acts (peer : Peer) : Network.Event → List Act
  | .client _ e => if peer.listener.allows e then [.own e] else []
  | .call _ method => if peer.listener.client.fault.isSome then [] else [.call method]
  | .down _ i n =>
    match peer.listener.client.transport.socket.ops[i]? with
    | some ⟨.asyncReceive, none⟩ =>
      if peer.listener.client.fault.isSome ∨ ¬ peer.listener.On peer.start then []
      else [.own (.finish i (.ok (nextBytes peer.down peer.delivered n)))]
    | _ => []
  | _ => []

namespace Network

def Event.client? : Event → Option Protocol
  | .client p _ => some p
  | .call p _ => some p
  | .down p _ _ => some p
  | _ => none

def acts (p : Protocol) (n : Network) (e : Event) : List Peer.Act :=
  match n.peers p with
  | none => []
  | some peer => if e.client? = some p then peer.acts e else []

variable {N : Wire} {n : Network} {p : Protocol} {peer : Peer}

def Did (N : Wire) (peer peer' : Peer) (acts : List Peer.Act) : Prop :=
  (peer'.listener, peer'.calls) = run (Peer.Act.step N) (peer.listener, peer.calls) acts

theorem did_client (N : Wire) (peer : Peer) (p : Protocol) (e : Client.Event) :
    Did N peer (if peer.listener.allows e then peer.step N e else peer)
      (peer.acts (.client p e)) := by
  simp only [Peer.acts]
  split
  · simp [Did, Peer.step, Peer.moved, Peer.Act.step, Peer.Act.event, Peer.Act.method?]
  · rfl

theorem did_call (N : Wire) (peer : Peer) (p : Protocol) (method : TalkServerIf) :
    Did N peer (peer.call N method) (peer.acts (.call p method)) := by
  simp only [Peer.acts, Peer.call]
  split
  · rfl
  · simp [Did, Peer.step, Peer.moved, Peer.Act.step, Peer.Act.event, Peer.Act.method?]

theorem did_receive (N : Wire) (peer : Peer) (p : Protocol) (i k : Nat) :
    Did N peer (peer.receive N i k) (peer.acts (.down p i k)) := by
  by_cases receiving :
      peer.listener.client.transport.socket.ops[i]? = some ⟨.asyncReceive, none⟩
  · simp only [Peer.acts, Peer.receive, receiving]
    split
    · rfl
    · simp [Did, Peer.step, Peer.moved, Peer.Act.step, Peer.Act.event, Peer.Act.method?]
  · have nothing : peer.acts (.down p i k) = [] := by simp only [Peer.acts]
    have same : peer.receive N i k = peer := by simp only [Peer.receive]
    rw [nothing, same]
    rfl

theorem answered_did (N : Wire) (peer : Peer) (c : Option Connection) :
    Did N peer (peer.answered c) [] := by
  unfold Peer.answered
  split
  · rfl
  · split <;> rfl

theorem onPeer_did (h : n.peers p = some peer) {q : Protocol} {f : Peer → Peer} {e : Event}
    (client : e.client? = some q) (did : Did N peer (f peer) (peer.acts e)) :
    ∃ peer', (n.onPeer q f).peers p = some peer' ∧ Did N peer peer' (n.acts p e) := by
  simp only [acts, h, client, Option.some.injEq]
  by_cases same : q = p
  · subst same
    rw [if_pos rfl]
    exact ⟨f peer, by simp [onPeer, h], did⟩
  · rw [if_neg same]
    exact ⟨peer, by simp [onPeer, Function.update_of_ne (Ne.symm same), h], rfl⟩

theorem serve_did (h : n.peers p = some peer) {e : Event} (other : e.client? = none)
    (e' : Server.Event) :
    ∃ peer', (n.serve N e').peers p = some peer' ∧ Did N peer peer' (n.acts p e) := by
  have nothing : n.acts p e = [] := by simp [acts, h, other]
  rw [nothing]
  exact ⟨peer.answered ((n.server.step N.library.toThrift e').connections p), by simp [serve, h],
    answered_did N peer _⟩

theorem step_did (h : n.peers p = some peer) (e : Event) :
    ∃ peer', (n.step N e).peers p = some peer' ∧ Did N peer peer' (n.acts p e) := by
  cases e with
  | server e =>
    simp only [step]
    split
    · exact serve_did h rfl e
    · exact ⟨peer, h, by simp [acts, h, Event.client?, Did]⟩
  | up q k =>
    simp only [step]
    split
    · exact serve_did h rfl _
    · exact ⟨peer, h, by simp [acts, h, Event.client?, Did]⟩
  | client q e => exact onPeer_did h rfl (did_client N peer q e)
  | call q method => exact onPeer_did h rfl (did_call N peer q method)
  | down q i k => exact onPeer_did h rfl (did_receive N peer q i k)

theorem run_did (h : n.peers p = some peer) (es : List Event) :
    ∃ peer', (run (step N) n es).peers p = some peer' ∧
      Did N peer peer' (collect (step N) (acts p) n es) := by
  refine run_follows (R := fun (n : Network) (x : Listener × List TalkServerIf) =>
    ∃ peer', n.peers p = some peer' ∧ (peer'.listener, peer'.calls) = x) (fun n x e now => ?_)
    ⟨peer, h, rfl⟩ es
  obtain ⟨peer', found, rfl⟩ := now
  exact step_did found e

end Network

namespace TalkClient

variable {N : Wire} {s : TalkClient}

def acts (s : TalkClient) : Event → List Peer.Act
  | .client e => [.own e]
  | e => (names (s.takes e)).map fun name => .call (.setUserName name)

/-- The library writes `setUserName` as the generated client does. -/
def Spells (N : Wire) : Prop := ∀ name, N.library.setUserName name =
  OutputProtocol.flush (N.writer.talkServerClient (.setUserName name))

theorem step_acts (spells : Spells N) (s : TalkClient) (e : Event) :
    (s.step N.library e).listener =
      run (Listener.step N.library) s.listener ((s.acts e).map (Peer.Act.event N)) := by
  cases e with
  | client e => exact (s.step_client N.library e).2.2
  | _ =>
    rw [(s.step_moves N.library (by simp)).listener, acts, sends, List.map_map]
    · simp only [Function.comp_def, Peer.Act.event, spells _]
    · simp

theorem methods_acts (s : TalkClient) (e : Event) :
    (s.acts e).filterMap Peer.Act.method? = (names (s.takes e)).map .setUserName := by
  cases e with
  | client e => rfl
  | _ =>
    rw [acts, List.filterMap_map, ← List.filterMap_eq_map]
    · rfl
    · simp

theorem calls_acts (T : ClientThrift) (s : TalkClient) (ts : List Event) :
    (collect (step T) acts s ts).filterMap Peer.Act.method? =
      (names (collect (step T) takes s ts)).map .setUserName := by
  rw [collect_filterMap, names, collect_filterMap, ← List.filterMap_eq_map, collect_filterMap]
  congr 1
  funext s e
  rw [methods_acts, List.filterMap_eq_map, names]

theorem run_acts (spells : Spells N) (s : TalkClient) (ts : List Event) :
    (run (step N.library) s ts).listener = run (Listener.step N.library) s.listener
      ((collect (step N.library) acts s ts).map (Peer.Act.event N)) := by
  have follows : (run (step N.library) s ts).listener = (run (Peer.Act.step N) (s.listener, [])
      (collect (step N.library) acts s ts)).1 := by
    refine run_follows (R := fun (s : TalkClient) (x : Listener × List TalkServerIf) =>
      s.listener = x.1) (fun s x e now => ?_) rfl ts
    rw [Peer.Act.run_step, ← now]
    exact s.step_acts spells e
  rw [follows, Peer.Act.run_step]

/-- What a `talkClient` says in the room is what `read_username` has taken from its terminal. When the
client of a connection does what a `talkClient` does, the calls on it are for the lines that were
taken, and the names that its member asks for are the first of these, in order; at rest they are
all. -/
theorem names_typed (N : Wire) (laws : N.Lawful) (spells : Spells N)
    (clients : Protocol → Option Listener) (connected : ∀ p l, clients p = some l → l.Connected)
    (es : List Network.Event) (p : Protocol) (s : TalkClient) (ts : List Event)
    (start : clients p = some s.listener)
    (same : collect (Network.step N) (Network.acts p) (Network.create clients) es =
      collect (step N.library) acts s ts) :
    let n := run (Network.step N) (Network.create clients) es
    let typed := names (collect (step N.library) takes s ts)
    let asked := Room.namesAsked p (roomEvents N.library.toThrift n.server.log)
    ∃ peer, n.peers p = some peer ∧
      peer.listener = (run (step N.library) s ts).listener ∧
      peer.calls = typed.map .setUserName ∧
      (n.Joined N p peer → asked <+: typed ∧
        ∀ c, n.server.connections p = some c → n.AtRest peer c → asked = typed) := by
  intro n typed asked
  have coherent : n.Coherent N :=
    run_invariant (fun _ e kept => kept.step laws e) (Network.coherent_create connected) es
  have created : (Network.create clients).peers p = some (Peer.create s.listener) := by
    simp [Network.create, start]
  obtain ⟨peer, found, did⟩ := Network.run_did (N := N) created es
  rw [same, Network.Did, Peer.Act.run_step, calls_acts] at did
  obtain ⟨listener, calls⟩ := Prod.mk.inj did
  have names : peer.calls.filterMap TalkServerIf.name? = typed := by
    rw [calls, List.filterMap_append, List.filterMap_map]
    exact List.filterMap_some
  refine ⟨peer, found, listener.trans (run_acts spells s ts).symm, calls, fun joined => ⟨?_, ?_⟩⟩
  · rw [← names]
    exact joined.asked_begins coherent laws
  · intro c hc rest
    have all := (coherent.peers p peer found).rest_asks coherent.server laws joined.on joined.sends
      hc rest
    rw [← names]
    simp only [asked, Room.namesAsked, all, List.filterMap_map, Function.comp_def,
      TalkServerIf.request_name?]

theorem binaryWire_spells : Spells Network.binaryWire := by
  intro name
  rw [Network.binaryWire_lawful.flush_request]
  have value : BinaryProtocol.writeString name = encodeFrame name :=
    congrArg (· ++ name) (BinaryProtocol.writeInt_natCast 4 name.length)
  have written : Network.binaryWire.writer.talkServerClient (.setUserName name) =
      BinaryProtocol.setUserName name := by
    simp only [OutputProtocol.talkServerClient, OutputProtocol.sendOneway,
      OutputProtocol.setUserNamePargs, OutputProtocol.stringPargs, OutputProtocol.writeStruct,
      OutputProtocol.writeField, Network.binaryWire, BinaryProtocol.writer, value,
      BinaryProtocol.setUserName, BinaryProtocol.message, BinaryProtocol.stringField,
      List.nil_append, List.append_nil, List.append_assoc, List.cons_append]
    rfl
  rw [written]
  rfl

def prompted : TalkClient :=
  run (step Network.binaryWire.library) (create Client.home) (Client.connecting.map .client)

def named : List Network.Event :=
  [.server (.finishAccept 0 (.ok ())), .server (.runAccept 0 8), .call 8 (.setUserName [66]),
    .up 8 100, .server (.finish 8 0 (.ok ())), .server (.run 8 0),
    .server (.finish 8 0 (.ok ())), .server (.run 8 0)]

theorem names_typed_line :
    let n := run (Network.step Network.binaryWire) (Network.create Network.twoPeers) named
    ∃ peer, n.Joined Network.binaryWire 8 peer ∧ peer.calls = [.setUserName [66]] ∧
      Room.namesAsked 8 (roomEvents Network.binaryWire.library.toThrift n.server.log) <+:
        [[66]] := by
  intro n
  obtain ⟨peer, joined, calls, -⟩ := Network.joined_named n 8 [66] [] (by decide)
    (by decide +kernel) (by decide +kernel) (by decide +kernel)
  obtain ⟨peer', found, -, -, asked⟩ := names_typed Network.binaryWire Network.binaryWire_lawful
    binaryWire_spells Network.twoPeers Network.connected_twoPeers named 8 prompted (types [66])
    (by rfl) (by rfl)
  obtain rfl := Option.some.inj (found.symm.trans joined.found)
  have typed : names (collect (step Network.binaryWire.library) takes prompted (types [66])) =
      [[66]] := by decide +kernel
  exact ⟨_, joined, calls, typed ▸ (asked joined).1⟩

end TalkClient

end ThriftAsio
