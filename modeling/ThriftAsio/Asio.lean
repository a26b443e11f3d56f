import ThriftAsio.Proactor

/-! What the code uses of Boost.Asio, as its documentation has it. A socket object is opened
and closed many times; `generation` counts the openings, so that two TCP connections made
through one socket object stay apart. Closing and cancelling themselves do not fail here:
both are only called on an open socket. -/

namespace ThriftAsio.Asio
open Proactor

inductive ErrorCode where
  | operationAborted
  | badDescriptor
  | eof
  | system (value : Nat)
  deriving DecidableEq, Repr

abbrev Completion (β : Type) := Except ErrorCode (List β)

structure Socket (κ β : Type) where
  isOpen : Bool
  generation : Nat
  ops : Ops κ (Completion β)
  /-- History: the operations that were started, oldest first. -/
  started : List κ

namespace Socket

variable {κ β : Type}

/-- An operation started on a closed socket completes with `bad_descriptor`. -/
def start (s : Socket κ β) (k : κ) : Socket κ β :=
  { s with
    ops := if s.isOpen then Proactor.start k s.ops
      else startFailed k (.error .badDescriptor) s.ops
    started := s.started ++ [k] }

def cancel (s : Socket κ β) : Socket κ β :=
  { s with ops := Proactor.cancel (.error .operationAborted) s.ops }

def close (s : Socket κ β) : Socket κ β := { s.cancel with isOpen := false }

/-- Opening closes the socket first, so what was pending on it is aborted. -/
def reopen (s : Socket κ β) : Socket κ β :=
  { s.close with isOpen := true, generation := s.generation + 1 }

def finish (s : Socket κ β) (i : Nat) (r : Completion β) : Socket κ β :=
  { s with ops := Proactor.finish i r s.ops }

def take (s : Socket κ β) (i : Nat) : Socket κ β := { s with ops := s.ops.eraseIdx i }

def outstanding (s : Socket κ β) : List κ := kinds s.ops

@[simp] theorem outstanding_start (s : Socket κ β) (k : κ) :
    (s.start k).outstanding = s.outstanding ++ [k] := by
  simp only [outstanding, start]
  split <;> simp

@[simp] theorem outstanding_cancel (s : Socket κ β) : s.cancel.outstanding = s.outstanding :=
  kinds_cancel _ _

@[simp] theorem outstanding_close (s : Socket κ β) : s.close.outstanding = s.outstanding :=
  kinds_cancel _ _

@[simp] theorem outstanding_reopen (s : Socket κ β) : s.reopen.outstanding = s.outstanding :=
  kinds_cancel _ _

@[simp] theorem outstanding_finish (s : Socket κ β) (i : Nat) (r : Completion β) :
    (s.finish i r).outstanding = s.outstanding := kinds_finish _ _ _

@[simp] theorem started_start (s : Socket κ β) (k : κ) :
    (s.start k).started = s.started ++ [k] := rfl

@[simp] theorem started_cancel (s : Socket κ β) : s.cancel.started = s.started := rfl

@[simp] theorem started_close (s : Socket κ β) : s.close.started = s.started := rfl

@[simp] theorem started_reopen (s : Socket κ β) : s.reopen.started = s.started := rfl

@[simp] theorem started_finish (s : Socket κ β) (i : Nat) (r : Completion β) :
    (s.finish i r).started = s.started := rfl

@[simp] theorem started_take (s : Socket κ β) (i : Nat) : (s.take i).started = s.started := rfl

@[simp] theorem isOpen_start (s : Socket κ β) (k : κ) : (s.start k).isOpen = s.isOpen := rfl

@[simp] theorem generation_start (s : Socket κ β) (k : κ) :
    (s.start k).generation = s.generation := rfl

@[simp] theorem isOpen_close (s : Socket κ β) : s.close.isOpen = false := rfl

theorem outstanding_take {s : Socket κ β} {i : Nat} {k : κ} {r : Completion β}
    (h : ready s.ops i = some (k, r)) :
    ∃ before after, s.outstanding = before ++ k :: after ∧
      (s.take i).outstanding = before ++ after := by
  obtain ⟨before, after, hops, herase⟩ := ready_split h
  refine ⟨kinds before, kinds after, ?_, ?_⟩
  · rw [outstanding, hops, kinds_append, kinds_cons]
  · rw [outstanding, take, herase, kinds_append]

/-- Every success that is still to be handled has delivered data with the property. -/
def Delivers (s : Socket κ β) (Q : List β → Prop) : Prop :=
  ∀ o ∈ s.ops, ∀ bytes, o.result = some (.ok bytes) → Q bytes

variable {s : Socket κ β} {Q : List β → Prop}

theorem Delivers.start (h : s.Delivers Q) (k : κ) : (s.start k).Delivers Q := by
  have old : ∀ o ∈ s.ops, ∀ bytes, o.result = some (.ok bytes) → Q bytes := h
  simp only [Delivers, Socket.start, Proactor.start, startFailed]
  split <;> simpa [or_imp, forall_and] using old

theorem Delivers.finish (h : s.Delivers Q) (i : Nat) {r : Completion β}
    (new : ∀ bytes, r = .ok bytes → Q bytes) : (s.finish i r).Delivers Q := by
  refine forall_finish h (fun o ho bytes => ?_) i
  have old := ho bytes
  cases hr : o.result with
  | none => simpa [Op.settle, hr] using new bytes
  | some r => simpa [Op.settle, hr] using old

theorem Delivers.cancel (h : s.Delivers Q) : s.cancel.Delivers Q := by
  intro o ho bytes hr
  obtain ⟨o', ho', rfl⟩ := List.mem_map.mp ho
  cases hr' : o'.result with
  | none => simp [Op.settle, hr'] at hr
  | some r => exact h o' ho' bytes (by simpa [Op.settle, hr'] using hr)

theorem Delivers.close (h : s.Delivers Q) : s.close.Delivers Q := h.cancel

theorem Delivers.reopen (h : s.Delivers Q) : s.reopen.Delivers Q := h.cancel

theorem Delivers.take (h : s.Delivers Q) (i : Nat) : (s.take i).Delivers Q := forall_eraseIdx h i

end Socket

end ThriftAsio.Asio
