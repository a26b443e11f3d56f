import ThriftAsio.OneRead

/-! Whether the terminal goes on asking. While the connection is up, a read is outstanding or a
name is with the server: what the one's handler drops, the other's must take up. An empty line
is dropped by both handlers. -/

namespace ThriftAsio
open Proactor Asio Machine

namespace Terminal

def Fits (buffer : Bytes) : Prop := (lineLength buffer).isSome ∨ buffer.length < maxSize

instance (buffer : Bytes) : Decidable (Fits buffer) := inferInstanceAs (Decidable (_ ∨ _))

def line (t : Terminal) : Bytes := (getline t.inputBuffer).1

theorem lineLength_bounds {buffer : Bytes} {n : Nat} (h : lineLength buffer = some n) :
    0 < n ∧ n ≤ buffer.length := by
  obtain ⟨i, found, rfl⟩ := Option.map_eq_some_iff.mp h
  have inside := (List.findIdx?_eq_some_iff_getElem.mp found).1
  omega

theorem search_fits {buffer : Bytes} (fits : Fits buffer) :
    search buffer = (lineLength buffer).map .ok := by
  unfold search
  cases h : lineLength buffer with
  | some n => rfl
  | none =>
    have room := fits.resolve_left (by simp [h])
    rw [if_pos room]
    rfl

theorem getline_found {buffer : Bytes} {n : Nat} (h : lineLength buffer = some n) :
    getline buffer = (buffer.take (n - 1), buffer.drop n) := by
  simp only [getline, h]

theorem getline_empty {buffer : Bytes} {n : Nat} (h : lineLength buffer = some n) :
    (getline buffer).1 = [] ↔ n = 1 := by
  obtain ⟨pos, inside⟩ := lineLength_bounds h
  rw [getline_found h, List.take_eq_nil_iff]
  constructor
  · rintro (short | rfl)
    · omega
    · simp at inside
      omega
  · rintro rfl
    exact .inl rfl

theorem fits_drop {buffer : Bytes} {n : Nat} (h : lineLength buffer = some n)
    (size : buffer.length ≤ maxSize) : Fits (buffer.drop n) := by
  have pos := (lineLength_bounds h).1
  refine .inr ?_
  rw [List.length_drop]
  have some : 0 < maxSize := by decide
  omega

end Terminal

namespace TalkClient

variable {T : ClientThrift} {s : TalkClient}

def answered (s : TalkClient) : Nat := (s.listener.invoked.filterMap TalkClientIf.prompt?).length

def Connected (s : TalkClient) : Prop := Callback.onConnected ∈ s.listener.client.calls

instance (s : TalkClient) : Decidable s.Connected := inferInstanceAs (Decidable (_ ∈ _))

/-- A read from the terminal is outstanding, or a name waits for its reply. -/
def Alive (s : TalkClient) : Prop := s.terminal.reads ≠ [] ∨ s.answered < s.asked

instance (s : TalkClient) : Decidable s.Alive := inferInstanceAs (Decidable (_ ∨ _))

/-- The connection stays up once it is established, every reply answers a name, and stdin
reports no error and only lines that fit into the buffer. -/
def Regular (T : ClientThrift) (s : TalkClient) : Event → Prop
  | .client e => (s.Connected → s.listener.client.connects e = false) ∧
      ((s.listener.methods T e).filterMap TalkClientIf.prompt? ≠ [] → s.answered < s.asked)
  | .typed _ chunk => Terminal.Fits (s.terminal.inputBuffer ++ chunk)
  | .stdinError _ _ => False
  | .runStdin _ => True

/-- A handler that the step runs takes a line that is not empty. -/
def TakesLine (s : TalkClient) : Event → Prop
  | .runStdin i => s.listener.client.fault = none → (ready s.terminal.reads i).isSome →
      s.terminal.line ≠ []
  | _ => True

instance (T : ClientThrift) (s : TalkClient) : DecidablePred (Regular T s)
  | .client _ => inferInstanceAs (Decidable (_ ∧ _))
  | .typed _ _ => inferInstanceAs (Decidable (Terminal.Fits _))
  | .stdinError _ _ => .isFalse id
  | .runStdin _ => .isTrue trivial

instance (s : TalkClient) : DecidablePred s.TakesLine
  | .runStdin _ => inferInstanceAs (Decidable (_ → _ → _))
  | .client _ | .typed _ _ | .stdinError _ _ => .isTrue trivial

/-- What the loop keeps: nothing, then one read or one name whose reply is missing. -/
structure Looping (s : TalkClient) : Prop where
  size : s.terminal.inputBuffer.length ≤ Terminal.maxSize
  room : Terminal.Fits s.terminal.inputBuffer
  found : ∀ o ∈ s.terminal.reads,
    o.result = (Terminal.lineLength s.terminal.inputBuffer).map .ok
  answered : s.answered ≤ s.asked
  one : s.terminal.reads.length + s.asked = s.answered + if s.Connected then 1 else 0

theorem Looping.alive (ok : s.Looping) (connected : s.Connected) : s.Alive := by
  have one := ok.one
  rw [if_pos connected] at one
  by_cases none : s.terminal.reads = []
  · rw [none, List.length_nil] at one
    exact .inr (by omega)
  · exact .inl none

theorem Looping.oneRead (ok : s.Looping) : s.OneRead := by
  have one := ok.one
  have answered := ok.answered
  unfold OneRead
  split at one <;> omega

theorem looping_create (query : Query) : (create query).Looping :=
  ⟨Nat.zero_le _, .inr (by simp [create, Terminal.maxSize]), by simp [create], Nat.le_refl 0, rfl⟩

theorem onConnected_mem_callbacks (c : Client) (e : Client.Event) :
    .onConnected ∈ c.callbacks e ↔ c.connects e = true := by
  have prompts := c.callbacks_prompts e
  constructor
  · intro called
    by_contra other
    rw [if_neg other, List.filterMap_eq_nil_iff] at prompts
    cases prompts _ called
  · intro connects
    rw [if_pos connects] at prompts
    have asked : .username ∈ (c.callbacks e).filterMap Callback.prompt? := by
      rw [prompts]
      exact List.mem_singleton_self _
    obtain ⟨call, called, prompt⟩ := List.mem_filterMap.mp asked
    cases call with
    | onConnected => exact called
    | onError ec => cases prompt
    | onDisconnected => cases prompt

theorem connected_client (running : s.listener.client.fault = none) (e : Client.Event) :
    (s.client T e).Connected ↔ s.Connected ∨ s.listener.client.connects e = true := by
  have calls := Listener.act_calls T running e
  rw [← Listener.step_running T running] at calls
  unfold Connected
  rw [client_eq T running, calls, List.mem_append, onConnected_mem_callbacks]

theorem answered_client (running : s.listener.client.fault = none) (e : Client.Event) :
    (s.client T e).answered =
      s.answered + ((s.listener.methods T e).filterMap TalkClientIf.prompt?).length := by
  have invoked := s.listener.act_invoked T e
  rw [← Listener.step_running T running] at invoked
  rw [answered, client_eq T running, invoked, List.filterMap_append, List.length_append, answered]

theorem Looping.client (ok : s.Looping) (running : s.listener.client.fault = none)
    {e : Client.Event} (once : s.Connected → s.listener.client.connects e = false)
    (answers : (s.listener.methods T e).filterMap TalkClientIf.prompt? ≠ [] →
      s.answered < s.asked) : (s.client T e).Looping := by
  have connected := connected_client (T := T) running e
  have replies := answered_client (T := T) running e
  have one := ok.one
  have few : ((s.listener.methods T e).filterMap TalkClientIf.prompt?).length ≤ 1 :=
    (List.length_filterMap_le _ _).trans (s.listener.methods_length T e)
  refine ⟨?_, ?_, ?_, ?_, ?_⟩
  · rw [client_eq T running, Terminal.foldl_asyncReadUntil]
    exact ok.size
  · rw [client_eq T running, Terminal.foldl_asyncReadUntil]
    exact ok.room
  · rw [client_eq T running, Terminal.foldl_asyncReadUntil]
    intro o ho
    rcases List.mem_append.mp ho with old | new
    · exact ok.found o old
    · obtain ⟨p, -, rfl⟩ := List.mem_map.mp new
      exact Terminal.search_fits ok.room
  · rw [replies]
    have asked : (s.client T e).asked = s.asked := rfl
    rw [asked]
    by_cases none : (s.listener.methods T e).filterMap TalkClientIf.prompt? = []
    · rw [none]
      exact ok.answered
    · have before := answers none
      omega
  · have asked : (s.client T e).asked = s.asked := rfl
    rw [reads_client running, replies, asked, Listener.due, List.length_append]
    by_cases connects : s.listener.client.connects e = true
    · have before : ¬ s.Connected := fun h => by simp [once h] at connects
      rw [if_neg before] at one
      rw [if_pos connects, if_pos (connected.mpr (.inr connects)), List.length_singleton]
      omega
    · have same : (s.client T e).Connected ↔ s.Connected := by simp [connected, connects]
      rw [if_neg connects, List.length_nil, if_congr same rfl rfl]
      omega

theorem Looping.typed (ok : s.Looping) {i : Nat} {chunk : Bytes}
    (fits : Terminal.Fits (s.terminal.inputBuffer ++ chunk)) :
    Looping { s with terminal := s.terminal.typed i chunk } := by
  simp only [Terminal.typed]
  split
  · rename_i p running
    split
    · rename_i size
      -- the running read is the only one
      have single : s.terminal.reads = [⟨p, none⟩] := by
        have some := List.mem_of_getElem? running
        obtain ⟨o, reads⟩ := List.length_eq_one_iff.mp
          (Nat.le_antisymm ok.oneRead (List.length_pos_of_mem some))
        rw [reads, List.mem_singleton] at some
        rw [reads, some]
      have first : i = 0 := by
        have inside := (List.getElem?_eq_some_iff.mp running).1
        rw [single, List.length_singleton] at inside
        omega
      have one := ok.one
      rw [single] at one
      rw [Terminal.search_fits fits, single, first]
      cases found : Terminal.lineLength (s.terminal.inputBuffer ++ chunk) with
      | none =>
        exact ⟨size, fits, by simp [found], ok.answered, one⟩
      | some n =>
        exact ⟨size, fits, by simp [found, finish, Op.settle], ok.answered, one⟩
    · exact ok
  · exact ok

theorem Looping.handled (ok : s.Looping) {i : Nat} {p : Prompt} {r : LineRead}
    (finished : ready s.terminal.reads i = some (p, r)) :
    s.terminal.reads.length = 1 ∧ s.terminal.reads.eraseIdx i = [] ∧
      ∃ n, r = .ok n ∧ Terminal.lineLength s.terminal.inputBuffer = some n := by
  obtain ⟨before, after, split, rest⟩ := ready_split finished
  have one := ok.oneRead
  rw [OneRead, split, List.length_append, List.length_cons] at one
  obtain rfl : before = [] := List.length_eq_zero_iff.mp (by omega)
  obtain rfl : after = [] := List.length_eq_zero_iff.mp (by omega)
  refine ⟨by rw [split]; rfl, rest, ?_⟩
  obtain ⟨n, found, same⟩ := Option.map_eq_some_iff.mp (ok.found _ (ready_mem finished)).symm
  exact ⟨n, same.symm, found⟩

theorem setUserName_same (running : s.listener.client.fault = none) (line : Bytes) :
    (s.setUserName T line).Connected = s.Connected ∧
      (s.setUserName T line).answered = s.answered := by
  have calls := Listener.act_calls T running (.send (T.setUserName line))
  have invoked := s.listener.act_invoked T (.send (T.setUserName line))
  rw [← Listener.step_running T running] at calls invoked
  refine ⟨?_, ?_⟩
  · rw [Connected, setUserName, calls]
    simp [Client.callbacks, Connected]
  · rw [answered, setUserName, invoked]
    simp [Listener.methods, Listener.message?, answered]

theorem Looping.takes (ok : s.Looping) (running : s.listener.client.fault = none) {i : Nat}
    {p : Prompt} {r : LineRead} (finished : ready s.terminal.reads i = some (p, r))
    (some : s.terminal.line ≠ []) : (onLine T { s with terminal := { s.terminal with
      reads := s.terminal.reads.eraseIdx i } } p r).Looping := by
  obtain ⟨single, erased, n, rfl, found⟩ := ok.handled finished
  have one := ok.one
  have answered := ok.answered
  have size : (s.terminal.inputBuffer.drop n).length ≤ Terminal.maxSize := by
    rw [List.length_drop]
    exact (Nat.sub_le _ _).trans ok.size
  have room := Terminal.fits_drop found ok.size
  have long : 1 < n := by
    have pos := (Terminal.lineLength_bounds found).1
    have other : n ≠ 1 := fun h => some ((Terminal.getline_empty found).mpr h)
    omega
  have line : s.terminal.inputBuffer.take (n - 1) ≠ [] := by
    rw [Terminal.line, Terminal.getline_found found] at some
    exact some
  rw [single] at one
  rw [erased]
  cases p with
  | username =>
    simp only [onLine, onUsername, if_pos long, Terminal.getline_found found, if_neg line]
    have same := setUserName_same (T := T)
      (s := ⟨s.listener, ⟨s.terminal.inputBuffer.drop n, []⟩, s.asked⟩) running
      (s.terminal.inputBuffer.take (n - 1))
    refine ⟨size, room, by simp [setUserName], ?_, ?_⟩
    · rw [same.2]
      exact Nat.le_succ_of_le answered
    · rw [same.2, if_congr (iff_of_eq same.1) rfl rfl]
      exact (Nat.zero_add _).trans ((Nat.add_comm _ _).trans one)
  | message =>
    simp only [onLine, onMessage, Terminal.getline_found found, if_neg line]
    exact ⟨size, room, by simp [Terminal.readMessage, Terminal.asyncReadUntil,
      Terminal.search_fits room], answered, one⟩

theorem Looping.dies (ok : s.Looping) {i : Nat} {p : Prompt} {r : LineRead}
    (finished : ready s.terminal.reads i = some (p, r)) (empty : s.terminal.line = []) :
    let s' := onLine T { s with terminal := { s.terminal with
      reads := s.terminal.reads.eraseIdx i } } p r
    s'.Connected ∧ ¬ s'.Alive := by
  obtain ⟨single, erased, n, rfl, found⟩ := ok.handled finished
  obtain rfl : n = 1 := (Terminal.getline_empty found).mp empty
  have connected : s.Connected := by
    by_contra before
    have one := ok.one
    have answered := ok.answered
    rw [single, if_neg before] at one
    omega
  have caught : ¬ s.answered < s.asked := by
    have one := ok.one
    rw [single, if_pos connected] at one
    omega
  have nothing : ∀ buffer, ¬ Alive { s with terminal := ⟨buffer, []⟩ } := by
    rintro buffer (some | waiting)
    · exact some rfl
    · exact caught waiting
  rw [erased]
  cases p with
  | username =>
    simp only [onLine, onUsername, Nat.lt_irrefl, if_false]
    exact ⟨connected, nothing _⟩
  | message =>
    have line : s.terminal.inputBuffer.take (1 - 1) = [] := List.take_zero
    simp only [onLine, onMessage, Terminal.getline_found found, line, if_true]
    exact ⟨connected, nothing _⟩

theorem Looping.step (ok : s.Looping) {e : Event} (regular : Regular T s e)
    (takes : s.TakesLine e) : (s.step T e).Looping := by
  by_cases dead : s.listener.client.fault ≠ none
  · rw [step_dead T dead]
    exact ok
  have running := not_not.mp dead
  rw [step_running T running]
  cases e with
  | client e => exact ok.client running regular.1 regular.2
  | typed i chunk => exact ok.typed regular
  | stdinError i ec => exact regular.elim
  | runStdin i =>
    cases finished : ready s.terminal.reads i with
    | none =>
      simp only [act, finished]
      exact ok
    | some x =>
      simp only [act, finished]
      exact ok.takes running finished (takes running (by simp [finished]))

theorem Looping.stops (ok : s.Looping) {e : Event} (empty : ¬ s.TakesLine e) :
    (s.step T e).Connected ∧ ¬ (s.step T e).Alive := by
  cases e with
  | runStdin i =>
    simp only [TakesLine, Classical.not_imp, not_not] at empty
    obtain ⟨running, some, line⟩ := empty
    obtain ⟨⟨p, r⟩, finished⟩ := Option.isSome_iff_exists.mp some
    rw [step_running T running]
    simp only [act, finished]
    exact ok.dies finished line
  | _ => exact absurd trivial empty

/-- With a connection that stays up, the terminal goes on asking after it is established exactly
if no handler takes an empty line. -/
theorem alive_iff_takesLine (T : ClientThrift) (query : Query) (es : List Event)
    (regular : Along (step T) (Regular T) (create query) es) :
    Along (step T) (fun s e => (s.step T e).Connected → (s.step T e).Alive) (create query) es ↔
      Along (step T) TakesLine (create query) es :=
  along_iff_of_exact_on (I := Looping)
    (fun _ _ ok regular takes =>
      have kept := ok.step regular takes
      ⟨kept.alive, kept⟩)
    (fun _ _ ok _ empty alive =>
      have dies := ok.stops (T := T) empty
      dies.2 (alive dies.1))
    (looping_create query) regular

def types (line : Bytes) : List Event := [.typed 0 (line ++ [Terminal.newline]), .runStdin 0]

def accepted : List Event :=
  [.client (.finish 0 (.ok (encodeFrame (BinaryProtocol.onSetUserNameSucceeded 1)))),
    .client (.run 0), .client .update, .client .read, .client .read]

theorem alive_after_name :
    let T := BinaryProtocol.clientLibrary
    Along (step T) (fun s e => (s.step T e).Connected → (s.step T e).Alive) (create Client.home)
      (Client.connecting.map .client ++ types [65] ++ accepted ++ types [66]) :=
  (alive_iff_takesLine BinaryProtocol.clientLibrary Client.home
    (Client.connecting.map .client ++ types [65] ++ accepted ++ types [66])
    (by decide +kernel)).mpr (by decide +kernel)

/-- An empty line at either prompt. -/
theorem empty_line_stops :
    let T := BinaryProtocol.clientLibrary
    let name := Client.connecting.map .client ++ types []
    let message := Client.connecting.map .client ++ types [65] ++ accepted ++ types []
    Along (step T) (Regular T) (create Client.home) name ∧
      (run (step T) (create Client.home) name).Connected ∧
      ¬ (run (step T) (create Client.home) name).Alive ∧
      Along (step T) (Regular T) (create Client.home) message ∧
      ¬ (run (step T) (create Client.home) message).Alive := by decide +kernel

end TalkClient

end ThriftAsio
