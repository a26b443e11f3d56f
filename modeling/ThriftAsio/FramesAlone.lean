import ThriftAsio.BinaryProtocol
import ThriftAsio.Listener
import ThriftAsio.Machine
import ThriftAsio.Reconnect

/-! What one frame does to the client. The server gives the processor a buffer for each frame and
a protocol to reply with; the client gives it the framed transport, which keeps what a message
leaves, and no output protocol. -/

namespace ThriftAsio.Listener
open Proactor Asio Machine

/-- No `process` call is under way, and everything of the earlier frames has been processed. -/
structure AtBoundary (l : Listener) : Prop where
  running : l.client.fault = none
  opened : l.client.transport.isOpen = true
  idle : l.client.reading = .idle
  unread : l.unread = []
  replaced : l.replaced = false

def processing (T : ClientThrift) (l : Listener) : Listener :=
  run (step T) l [.update, .read, .read]

def payload (frame : List Arrived) : Bytes := (frame.drop 4).map Prod.snd

def afterFrame (l : Listener) (frame more : List Arrived) : Listener :=
  { l with client := { l.client with
      transport := { l.client.transport with incommingBytes := more }
      frames := l.client.frames ++ [frame] } }

/-- The frame in front was handled on its own: the step has returned, the method it calls was
invoked, and the next byte that is read is the first one behind it. -/
structure HandledAlone (T : ClientThrift) (l l' : Listener) (frame more : List Arrived) :
    Prop where
  running : l'.client.fault = none
  returned : l'.client.reading = .idle
  invoked : l'.invoked = l.invoked ++
    match T.incoming (payload frame) with
    | .ok (incoming, _) => incoming.methods
    | .error _ => []
  unread : l'.unread = []
  incommingBytes : l'.client.transport.incommingBytes = more

section Processing

variable {T : ClientThrift} {l : Listener} {frame more : List Arrived}

theorem length_frame (isFrame : arrivedFrames.IsFrame frame) :
    arrivedFrames.payloadLength (frame.take 4) = (frame.drop 4).length := by
  obtain ⟨header, whole⟩ := isFrame
  change 4 + arrivedFrames.payloadLength (frame.take 4) = frame.length at whole
  rw [List.length_drop]
  omega

theorem processing_eq (boundary : l.AtBoundary) (isFrame : arrivedFrames.IsFrame frame)
    (front : l.client.transport.incommingBytes = frame ++ more) :
    processing T l = (l.afterFrame frame more).onFrame T (payload frame) := by
  have four : 4 ≤ frame.length := isFrame.1
  have peek : l.client.transport.peek = true := by
    have nonempty : frame ≠ [] := List.ne_nil_of_length_pos (by omega)
    simp [Transport.peek, boundary.opened, front, nonempty]
  have first := step_update (T := T) boundary.running boundary.idle boundary.unread peek
  have second := step_read_size (T := T)
    (l := { l with client := { l.client with reading := .size } }) boundary.running rfl
    (by simp only [front, List.length_append]; omega)
  simp only [front, List.take_append_of_le_length four,
    List.drop_append_of_le_length four] at second
  have third := step_read_payload (T := T) (l := { l with client := { l.client with
      transport := { l.client.transport with incommingBytes := frame.drop 4 ++ more }
      reading := .payload (frame.take 4) } }) boundary.running rfl
    (by simp only [length_frame isFrame, List.length_append]; omega)
  simp only [length_frame isFrame, List.take_left, List.drop_left,
    List.take_append_drop] at third
  rw [processing, run_cons, first, run_cons, second, run_cons, third, run_nil]
  simp only [afterFrame, payload, boundary.idle]

theorem onFrame_not_whole (empty : l.unread = []) (kept : l.replaced = false) {payload : Bytes}
    (broken : ∀ incoming, ¬ T.Whole payload incoming) :
    (l.onFrame T payload).client.fault ≠ none ∨ (l.onFrame T payload).client.reading = .size ∨
      (l.onFrame T payload).unread ≠ [] := by
  by_cases nothing : payload = []
  · rw [onFrame, if_pos nothing]
    exact .inl (by simp [throws])
  rw [onFrame, if_neg nothing, empty, List.nil_append]
  cases decoded : T.incoming payload with
  | error e =>
    rw [process_error decoded]
    by_cases short : T.endOfFile e
    · rw [if_pos short]
      exact .inr (.inl rfl)
    · rw [if_neg short]
      exact .inl (by simp [throws])
  | ok out =>
    obtain ⟨incoming, rest⟩ := out
    rw [process_incoming decoded]
    by_cases replies : incoming.replies
    · rw [if_pos replies]
      exact .inl (by simp [throws])
    · rw [if_neg replies]
      refine .inr (.inr fun left => ?_)
      have all : rest = [] := by simpa [returned, kept] using left
      exact broken incoming ⟨nothing, by simpa using replies, by rw [decoded, all]⟩

theorem handledAlone_onFrame (boundary : l.AtBoundary) :
    HandledAlone T l ((l.afterFrame frame more).onFrame T (payload frame)) frame more ↔
      ∃ incoming, T.Whole (payload frame) incoming := by
  have unread : (l.afterFrame frame more).unread = [] := boundary.unread
  constructor
  · intro alone
    by_contra broken
    rw [not_exists] at broken
    rcases onFrame_not_whole unread boundary.replaced broken with faulty | goesOn | left
    · exact faulty alone.running
    · exact Reading.noConfusion (alone.returned.symm.trans goesOn)
    · exact left alone.unread
  · rintro ⟨incoming, whole⟩
    rw [onFrame_whole unread whole]
    exact ⟨boundary.running, boundary.idle, by simp only [whole.2.2, afterFrame],
      returned_nil_unread _, rfl⟩

end Processing

/-- Whatever the client's state at a frame boundary, a processing step handles the frame on its
own exactly if the payload is one message that is not answered, and nothing else. -/
theorem handledAlone_iff (T : ClientThrift) (l : Listener) (frame more : List Arrived)
    (boundary : l.AtBoundary) (isFrame : arrivedFrames.IsFrame frame)
    (front : l.client.transport.incommingBytes = frame ++ more) :
    HandledAlone T l (processing T l) frame more ↔
      ∃ incoming, T.Whole (payload frame) incoming := by
  rw [processing_eq boundary isFrame front]
  exact handledAlone_onFrame boundary

def heard (payload : Bytes) : Listener :=
  run (step BinaryProtocol.clientLibrary) (create Client.home)
    (Client.connecting ++ [.finish 0 (.ok (encodeFrame payload)), .run 0])

def heardFrame (payload : Bytes) : List Arrived := (encodeFrame payload).map fun b => (1, b)

theorem handledAlone_onGetVersion :
    HandledAlone BinaryProtocol.clientLibrary (heard (BinaryProtocol.onGetVersion []))
      (processing BinaryProtocol.clientLibrary (heard (BinaryProtocol.onGetVersion [])))
      (heardFrame (BinaryProtocol.onGetVersion [])) [] :=
  (handledAlone_iff BinaryProtocol.clientLibrary (heard (BinaryProtocol.onGetVersion []))
    (heardFrame (BinaryProtocol.onGetVersion [])) []
    ⟨by decide +kernel, by decide +kernel, rfl, by decide +kernel, by decide +kernel⟩
    ⟨by decide +kernel, by decide +kernel⟩ (by decide +kernel)).mpr
    ⟨.call (.onGetVersion []), by decide +kernel, rfl, by decide +kernel⟩

/-- A byte behind the message stays in the framed transport, an unknown name reaches the null
output protocol, and an empty payload ends in an exception. -/
theorem frames_not_alone :
    let trailing := BinaryProtocol.onGetVersion [] ++ [0]
    let unknown := BinaryProtocol.message 4 (bytes "hello") 0 []
    let after := fun payload => processing BinaryProtocol.clientLibrary (heard payload)
    (heard trailing).AtBoundary ∧ arrivedFrames.IsFrame (heardFrame trailing) ∧
      (heard trailing).client.transport.incommingBytes = heardFrame trailing ++ [] ∧
      (after trailing).unread = [0] ∧
      ¬ HandledAlone BinaryProtocol.clientLibrary (heard trailing) (after trailing)
        (heardFrame trailing) [] ∧
      (after unknown).client.fault = some .undefinedBehaviour ∧
      (after []).client.fault = some .thriftException := by
  intro trailing unknown after
  have left : (after trailing).unread = [0] := by decide +kernel
  refine ⟨⟨by decide +kernel, by decide +kernel, rfl, by decide +kernel, by decide +kernel⟩,
    ⟨by decide +kernel, by decide +kernel⟩, by decide +kernel, left, fun alone => ?_,
    by decide +kernel, by decide +kernel⟩
  rw [alone.unread] at left
  cases left

end ThriftAsio.Listener
