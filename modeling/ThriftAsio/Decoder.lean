import Mathlib.Data.List.Basic

/-! Decoders of a stream: they fail, or return a value and what is left of the stream, which is
never more than there was. So a loop whose head takes something from the stream ends. -/

namespace ThriftAsio

/-- A value and the rest of the stream, no longer than the stream was. -/
abbrev Decoded (β α : Type) (input : List β) : Type :=
  { out : α × List β // out.2.length ≤ input.length }

def Decoder (ε β α : Type) : Type := (input : List β) → Except ε (Decoded β α input)

/-- A decoder that always takes something from the stream. -/
def Eater (ε β α : Type) : Type :=
  (input : List β) → Except ε { out : α × List β // out.2.length < input.length }

namespace Decoder

variable {ε β α σ τ : Type}

def fail (e : ε) : Decoder ε β α := fun _ => .error e

protected def pure (value : α) : Decoder ε β α := fun input => .ok ⟨(value, input), Nat.le_refl _⟩

protected def bind (d : Decoder ε β τ) (f : τ → Decoder ε β α) : Decoder ε β α := fun input =>
  match d input with
  | .error e => .error e
  | .ok ⟨(value, rest), first⟩ =>
    match f value rest with
    | .error e => .error e
    | .ok ⟨out, second⟩ => .ok ⟨out, Nat.le_trans second first⟩

instance : Monad (Decoder ε β) where
  pure := Decoder.pure
  bind := Decoder.bind

def value (d : Decoder ε β α) (input : List β) : Except ε α := (d input).map fun out => out.1.1

/-- `while (true) { next; if (stop) break; body }` -/
def loop (next : Eater ε β τ) (stop : τ → Bool) (body : σ → τ → Decoder ε β σ) (s : σ) :
    Decoder ε β σ := fun input =>
  match next input with
  | .error e => .error e
  | .ok ⟨(t, rest), taken⟩ =>
    if stop t then .ok ⟨(s, rest), Nat.le_of_lt taken⟩
    else
      match body s t rest with
      | .error e => .error e
      | .ok ⟨(s', rest'), done⟩ =>
        match loop next stop body s' rest' with
        | .error e => .error e
        | .ok ⟨out, final⟩ => .ok ⟨out, by simp only at taken done; omega⟩
termination_by input => input.length
decreasing_by simp only at taken done; omega

end Decoder

end ThriftAsio
