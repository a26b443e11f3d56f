import ThriftAsio.BinaryProtocol
import ThriftAsio.Machine
import ThriftAsio.Reconnect
import ThriftAsio.Terminal

/-! How many reads from the terminal are outstanding. The handler of a read starts one at most,
in place of its own; `on_connected` and the replies to `setUserName` start one whatever there
is. -/

namespace ThriftAsio.TalkClient
open Proactor Asio Machine

variable {T : ClientThrift} {s : TalkClient}

/-- The step calls `on_connected`, or a reply to `setUserName` is heard in it. -/
def Prompted (T : ClientThrift) (s : TalkClient) : Event → Prop
  | .client e => s.listener.client.fault = none ∧ s.listener.due T e ≠ []
  | _ => False

/-- `on_connected` and the replies come while no read is outstanding. -/
def PromptedIdle (T : ClientThrift) (s : TalkClient) (e : Event) : Prop :=
  Prompted T s e → s.terminal.reads = []

def OneRead (s : TalkClient) : Prop := s.terminal.reads.length ≤ 1

instance (s : TalkClient) : Decidable s.OneRead := inferInstanceAs (Decidable (_ ≤ _))

theorem reads_client (running : s.listener.client.fault = none) (e : Client.Event) :
    (s.client T e).terminal.reads.length =
      s.terminal.reads.length + (s.listener.due T e).length := by
  rw [client_eq T running, Terminal.foldl_asyncReadUntil]
  simp

theorem reads_typed (t : Terminal) (i : Nat) (chunk : Bytes) :
    (t.typed i chunk).reads.length = t.reads.length := by
  simp only [Terminal.typed]
  split
  · split
    · split
      · rfl
      · simp [finish]
    · rfl
  · rfl

theorem reads_onLine (s : TalkClient) (p : Prompt) (r : LineRead) :
    (s.onLine T p r).terminal.reads.length ≤ s.terminal.reads.length + 1 := by
  cases r with
  | error ec => cases p <;> exact Nat.le_succ _
  | ok length =>
    cases p with
    | username =>
      simp only [onLine, onUsername]
      split
      · split
        · simp [Terminal.readUsername, Terminal.asyncReadUntil]
        · exact Nat.le_succ _
      · exact Nat.le_succ _
    | message =>
      simp only [onLine, onMessage]
      split
      · exact Nat.le_succ _
      · simp [Terminal.readMessage, Terminal.asyncReadUntil]

theorem reads_of_not_prompted {e : Event} (quiet : ¬ Prompted T s e) :
    (s.step T e).terminal.reads.length ≤ s.terminal.reads.length := by
  by_cases dead : s.listener.client.fault ≠ none
  · rw [step_dead T dead]
  have running := not_not.mp dead
  cases e with
  | client e =>
    have none : s.listener.due T e = [] := by
      by_contra some
      exact quiet ⟨running, some⟩
    rw [step_running T running, act, reads_client running, none]
    simp
  | typed i chunk =>
    rw [step_running T running]
    exact (reads_typed _ _ _).le
  | stdinError i ec =>
    rw [step_running T running]
    simp [act, finish]
  | runStdin i =>
    rw [step_running T running]
    cases found : ready s.terminal.reads i with
    | none => simp [act, found]
    | some x =>
      obtain ⟨p, r⟩ := x
      simp only [act, found]
      refine (reads_onLine _ p r).trans ?_
      obtain ⟨before, after, whole, rest⟩ := ready_split found
      have longer := congrArg List.length whole
      have shorter := congrArg List.length rest
      simp only [List.length_append, List.length_cons] at longer shorter
      simp only [shorter, longer]
      omega

theorem reads_of_prompted {e : Event} (prompted : Prompted T s e) :
    (s.step T e).terminal.reads.length = s.terminal.reads.length + 1 := by
  cases e with
  | client e =>
    obtain ⟨running, some⟩ := prompted
    have most := s.listener.due_length T e
    have least := List.length_pos_iff.mpr some
    rw [step_running T running, act, reads_client running]
    omega
  | _ => cases prompted

/-- One read at most is outstanding all along exactly if `on_connected` and the replies always
come while none is. -/
theorem oneRead_iff (T : ClientThrift) (query : Query) (es : List Event) :
    Along (step T) (fun s e => (s.step T e).OneRead) (create query) es ↔
      Along (step T) (PromptedIdle T) (create query) es := by
  refine along_iff_of_exact (I := OneRead) (fun s e one idle => ?_) (fun s e one busy => ?_)
    (by exact Nat.zero_le 1) es
  · have kept : (s.step T e).OneRead := by
      by_cases prompted : Prompted T s e
      · rw [OneRead, reads_of_prompted prompted, idle prompted]
        exact Nat.le_refl 1
      · exact (reads_of_not_prompted prompted).trans one
    exact ⟨kept, kept⟩
  · simp only [PromptedIdle, Classical.not_imp] at busy
    have some := List.length_pos_iff.mpr busy.2
    rw [OneRead, reads_of_prompted busy.1]
    omega

def lost : List Client.Event := [.finish 0 (.error .eof), .run 0, .expire 0, .runWait 0]

def reconnected : List Event := (Client.connecting ++ lost ++ Client.connecting).map .client

theorem reconnect_starts_second_read :
    let s := run (step BinaryProtocol.clientLibrary) (create Client.home) reconnected
    s.listener.client.fault = none ∧
      s.terminal.reads = [⟨.username, none⟩, ⟨.username, none⟩] ∧
      ¬ Along (step BinaryProtocol.clientLibrary)
        (fun s e => (s.step BinaryProtocol.clientLibrary e).OneRead) (create Client.home)
        reconnected := by decide +kernel

end ThriftAsio.TalkClient
