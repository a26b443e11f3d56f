import ThriftAsio.Decoder

/-! What a decoder makes of a stream that starts with given bytes. `Yields` fixes its result
whatever follows them, and goes through sequencing and loops, so a reader that is put together
from others reads back what a writer puts together from others. A decoder that `Extends` is not
disturbed by what comes later; so it accepts no part of what it reads back. -/

namespace ThriftAsio

variable {ε β α σ τ : Type}

namespace Decoder

def out (d : Decoder ε β α) (input : List β) : Except ε (α × List β) := (d input).map Subtype.val

theorem out_bind (d : Decoder ε β τ) (f : τ → Decoder ε β α) (input : List β) :
    out (d >>= f) input = (out d input).bind fun x => out (f x.1) x.2 := by
  change (Decoder.bind d f input).map Subtype.val = _
  unfold Decoder.bind out
  cases first : d input with
  | error e => rfl
  | ok x =>
    obtain ⟨⟨value, rest⟩, shorter⟩ := x
    simp only [Except.map, Except.bind]
    cases second : f value rest with
    | error e => rfl
    | ok y => rfl

theorem value_eq (d : Decoder ε β α) (input : List β) :
    d.value input = (out d input).map Prod.fst := by
  unfold value out
  cases d input <;> rfl

end Decoder

namespace Eater

def out (d : Eater ε β α) (input : List β) : Except ε (α × List β) := (d input).map Subtype.val

theorem out_length {d : Eater ε β α} {input rest : List β} {value : α}
    (read : d.out input = .ok (value, rest)) : rest.length < input.length := by
  unfold out at read
  cases taken : d input with
  | error e => simp [taken, Except.map] at read
  | ok x =>
    rw [taken] at read
    obtain rfl : x.val.2 = rest := congrArg Prod.snd (Except.ok.inj read)
    exact x.2

end Eater

namespace Decoder

theorem out_length {d : Decoder ε β α} {input rest : List β} {value : α}
    (read : out d input = .ok (value, rest)) : rest.length ≤ input.length := by
  unfold out at read
  cases taken : d input with
  | error e => simp [taken, Except.map] at read
  | ok x =>
    rw [taken] at read
    obtain rfl : x.val.2 = rest := congrArg Prod.snd (Except.ok.inj read)
    exact x.2

theorem out_loop (next : Eater ε β τ) (stop : τ → Bool) (body : σ → τ → Decoder ε β σ) (s : σ)
    (input : List β) :
    out (loop next stop body s) input = (next.out input).bind fun x =>
      if stop x.1 then .ok (s, x.2)
      else (out (body s x.1) x.2).bind fun y => out (loop next stop body y.1) y.2 := by
  rw [out, loop, Eater.out]
  cases first : next input with
  | error e => rfl
  | ok x =>
    obtain ⟨⟨t, rest⟩, taken⟩ := x
    simp only [Except.map, Except.bind]
    by_cases stops : stop t = true
    · simp [stops]
    · simp only [stops, Bool.false_eq_true, if_false, out]
      cases done : body s t rest with
      | error e => rfl
      | ok y =>
        simp only [Except.map]
        cases loop next stop body y.val.1 y.val.2 <;> rfl

/-- Whatever follows these bytes, the decoder takes them and has this result. -/
def Yields (d : Decoder ε β α) (bytes : List β) (r : Except ε α) : Prop :=
  ∀ rest, out d (bytes ++ rest) = r.map fun value => (value, rest)

end Decoder

def Eater.Yields (d : Eater ε β α) (bytes : List β) (value : α) : Prop :=
  ∀ rest, d.out (bytes ++ rest) = .ok (value, rest)

namespace Decoder

theorem yields_pure (value : α) : (pure value : Decoder ε β α).Yields [] (.ok value) :=
  fun _ => rfl

theorem yields_fail (e : ε) : (fail e : Decoder ε β α).Yields [] (.error e) := fun _ => rfl

theorem Yields.bind {d : Decoder ε β τ} {f : τ → Decoder ε β α} {bytes more : List β} {value : τ}
    {r : Except ε α} (first : d.Yields bytes (.ok value)) (second : (f value).Yields more r) :
    (d >>= f).Yields (bytes ++ more) r := by
  intro rest
  rw [out_bind, List.append_assoc, first]
  exact second rest

theorem Yields.bind_nil {d : Decoder ε β τ} {f : τ → Decoder ε β α} {bytes : List β} {value : τ}
    {r : Except ε α} (first : d.Yields bytes (.ok value)) (second : (f value).Yields [] r) :
    (d >>= f).Yields bytes r := by
  have both := first.bind second
  rwa [List.append_nil] at both

theorem Yields.map {d : Decoder ε β τ} {bytes : List β} {value : τ} (g : τ → α)
    (first : d.Yields bytes (.ok value)) :
    (d >>= fun x => (pure (g x) : Decoder ε β α)).Yields bytes (.ok (g value)) :=
  first.bind_nil (yields_pure _)

theorem Yields.out_eq {d : Decoder ε β α} {bytes : List β} {value : α}
    (reads : d.Yields bytes (.ok value)) : out d bytes = .ok (value, []) := by
  have whole := reads []
  rwa [List.append_nil] at whole

section Loop

variable (next : Eater ε β τ) (stop : τ → Bool) (body : σ → τ → Decoder ε β σ)

/-- The bytes make the loop go round once, which changes its state like this. -/
def Round (bytes : List β) (f : σ → σ) : Prop :=
  ∃ head tail t, bytes = head ++ tail ∧ next.Yields head t ∧ stop t = false ∧
    ∀ s, (body s t).Yields tail (.ok (f s))

variable {next stop body}

theorem yields_loop {rounds : List (List β × (σ → σ))}
    (each : ∀ r ∈ rounds, Round next stop body r.1 r.2) {final : List β} {t : τ}
    (last : next.Yields final t) (stops : stop t = true) (s : σ) :
    (loop next stop body s).Yields (rounds.flatMap Prod.fst ++ final)
      (.ok (rounds.foldl (fun s r => r.2 s) s)) := by
  induction rounds generalizing s with
  | nil =>
    intro rest
    rw [List.flatMap_nil, List.nil_append, out_loop, last]
    exact if_pos stops
  | cons r rounds ih =>
    intro rest
    obtain ⟨head, tail, t', split, reads, goes, does⟩ := each r List.mem_cons_self
    have later := ih (fun r' hr => each r' (List.mem_cons_of_mem r hr)) (r.2 s) rest
    rw [List.append_assoc] at later
    rw [List.flatMap_cons, split, out_loop]
    simp only [List.append_assoc, reads _, Except.bind, goes, Bool.false_eq_true, if_false,
      does s _, Except.map, later]
    rfl

end Loop

/-- A decoder that accepts a stream accepts a longer one alike, and leaves the rest with it. -/
def Extends (d : Decoder ε β α) : Prop :=
  ∀ input value rest, out d input = .ok (value, rest) →
    ∀ more, out d (input ++ more) = .ok (value, rest ++ more)

end Decoder

def Eater.Extends (d : Eater ε β α) : Prop :=
  ∀ input value rest, d.out input = .ok (value, rest) →
    ∀ more, d.out (input ++ more) = .ok (value, rest ++ more)

namespace Decoder

theorem extends_pure (value : α) : (pure value : Decoder ε β α).Extends := by
  intro input v rest accepted more
  obtain ⟨rfl, rfl⟩ := Prod.mk.inj (Except.ok.inj accepted)
  rfl

theorem extends_fail (e : ε) : (fail e : Decoder ε β α).Extends := by
  intro input v rest accepted
  cases accepted

theorem bind_ok {ρ : Type} {x : Except ε τ} {f : τ → Except ε ρ} {r : ρ}
    (done : x.bind f = .ok r) : ∃ a, x = .ok a ∧ f a = .ok r := by
  cases x with
  | error e => cases done
  | ok a => exact ⟨a, rfl, done⟩

theorem Extends.bind {d : Decoder ε β τ} {f : τ → Decoder ε β α} (first : d.Extends)
    (second : ∀ value, (f value).Extends) : (d >>= f).Extends := by
  intro input value rest accepted more
  rw [out_bind] at accepted
  obtain ⟨⟨v, left⟩, read, went⟩ := bind_ok accepted
  rw [out_bind, first input v left read more]
  exact second v left value rest went more

theorem Extends.loop {next : Eater ε β τ} {stop : τ → Bool} {body : σ → τ → Decoder ε β σ}
    (head : next.Extends) (round : ∀ s t, (body s t).Extends) (s : σ) :
    (loop next stop body s).Extends := by
  intro input
  induction hn : input.length using Nat.strongRecOn generalizing input s with
  | ind n ih =>
    intro value rest accepted more
    rw [out_loop] at accepted
    obtain ⟨⟨t, left⟩, read, went⟩ := bind_ok accepted
    rw [out_loop, head input t left read more]
    by_cases stops : stop t = true
    · rw [if_pos stops] at went
      obtain ⟨rfl, rfl⟩ := Prod.mk.inj (Except.ok.inj went)
      exact if_pos stops
    · rw [if_neg stops] at went
      obtain ⟨⟨s', left'⟩, did, again⟩ := bind_ok went
      have shorter : left'.length < n := by
        have less := Eater.out_length read
        have no_more : left'.length ≤ left.length := out_length did
        omega
      have later := ih left'.length shorter s' left' rfl value rest again more
      simp only [Except.bind, stops, round s t left s' left' did more]
      exact later

theorem Extends.refuses {d : Decoder ε β α} (stable : d.Extends) {bytes part more : List β}
    {value : α} (reads : d.Yields bytes (.ok value)) (split : bytes = part ++ more)
    (missing : more ≠ []) : ∃ e, out d part = .error e := by
  cases accepted : out d part with
  | error e => exact ⟨e, rfl⟩
  | ok x =>
    have longer := stable part x.1 x.2 accepted more
    rw [← split, reads.out_eq] at longer
    obtain ⟨-, left⟩ := Prod.mk.inj (Except.ok.inj longer)
    exact absurd (List.append_eq_nil_iff.mp left.symm).2 missing

end Decoder

end ThriftAsio
