import ThriftAsio.Attempts

/-! What `isOpen()` and `isClosed()` say of an attempt to connect. Both only look at the socket,
which `async_connect` opens when it starts and which name resolution does not touch. -/

namespace ThriftAsio.Attempts
open Proactor Asio Machine

variable {β : Type}

def Resolving (a : Attempts β) : Prop := ∃ o ∈ a.transport.resolver, o.result = none

def Connecting (a : Attempts β) : Prop :=
  ∃ o ∈ a.transport.socket.ops, ∃ op, o.kind = .own op ∧ o.result = none

/-- The status as the documentation of `open()` and `isClosed()` has it. -/
structure Documented (a : Attempts β) : Prop where
  isOpen : a.transport.isOpen = true ↔ a.phase = .established
  isClosed : a.transport.isClosed = true ↔
    a.phase ≠ .established ∧ ¬ a.Resolving ∧ ¬ a.Connecting

/-- In every reachable state the status is as documented exactly if no connect is under way, and
a name is resolved only while a connection is established. -/
theorem documented_iff (query : Query) (es : List (Event β)) :
    (run step (create query) es).Documented ↔
      (run step (create query) es).phase ≠ .connecting ∧
        ((run step (create query) es).Resolving →
          (run step (create query) es).phase = .established) := by
  have sound := sound_run query es
  generalize run step (create query) es = a at sound
  have isClosed : a.transport.isClosed = !a.transport.isOpen := rfl
  constructor
  · intro ok
    refine ⟨fun under => ?_, fun resolving => ?_⟩
    · have opened : a.transport.isOpen = true := sound.opened.mpr (by rw [under]; decide)
      have established := ok.isOpen.mp opened
      rw [under] at established
      cases established
    · by_contra never
      have closed : a.transport.isOpen ≠ true := fun opened => never (ok.isOpen.mp opened)
      have said : a.transport.isClosed = true := by simp [isClosed, closed]
      exact (ok.isClosed.mp said).2.1 resolving
  · rintro ⟨idle, resolving⟩
    have isOpen : a.transport.isOpen = true ↔ a.phase = .established := by
      rw [sound.opened]
      cases phase : a.phase <;> simp_all
    refine ⟨isOpen, ?_⟩
    constructor
    · intro said
      have closed : a.transport.isOpen = false := by simpa [isClosed] using said
      have never : a.phase ≠ .established := fun established => by
        simp [isOpen.mpr established] at closed
      refine ⟨never, fun now => never (resolving now), ?_⟩
      rintro ⟨o, ho, op, kind, result⟩
      exact sound.settled closed o ho op kind result
    · rintro ⟨never, -, -⟩
      have closed : a.transport.isOpen ≠ true := fun opened => never (isOpen.mp opened)
      simp [isClosed, closed]

/-- The name is being resolved, or the connect is running. -/
theorem status_of_attempt :
    ¬ Documented (run step (create ⟨"host", "1234"⟩ : Attempts UInt8) [.open']) ∧
      ¬ Documented (run step (create ⟨"host", "1234"⟩ : Attempts UInt8)
        [.open', .resolved 0 (.ok ()), .runResolve 0]) := by
  constructor
  · intro ok
    exact (ok.isClosed.mp rfl).2.1 ⟨⟨⟨"host", "1234"⟩, none⟩, by decide, rfl⟩
  · intro ok
    exact absurd (ok.isOpen.mp rfl) (by decide)

end ThriftAsio.Attempts
