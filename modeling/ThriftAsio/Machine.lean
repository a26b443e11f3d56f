import Mathlib.Data.List.Basic
import Mathlib.Data.List.Range

/-! Runs of a total step function. An event that cannot occur leaves the state as it is, so
every list of events is a run and an invariant is a fact about all lists.
`Along` is what holds of every step of a run, seen with the state before it. -/

namespace ThriftAsio.Machine

variable {σ τ ε δ : Type*}

def run (step : σ → ε → σ) (s : σ) (es : List ε) : σ := es.foldl step s

@[simp] theorem run_nil (step : σ → ε → σ) (s : σ) : run step s [] = s := rfl

@[simp] theorem run_cons (step : σ → ε → σ) (s : σ) (e : ε) (es : List ε) :
    run step s (e :: es) = run step (step s e) es := rfl

theorem run_append (step : σ → ε → σ) (s : σ) (es fs : List ε) :
    run step s (es ++ fs) = run step (run step s es) fs := List.foldl_append

theorem run_concat (step : σ → ε → σ) (s : σ) (es : List ε) (e : ε) :
    run step s (es ++ [e]) = step (run step s es) e := by
  rw [run_append, run_cons, run_nil]

def Along (step : σ → ε → σ) (C : σ → ε → Prop) : σ → List ε → Prop
  | _, [] => True
  | s, e :: es => C s e ∧ Along step C (step s e) es

@[simp] theorem along_nil (step : σ → ε → σ) (C : σ → ε → Prop) (s : σ) :
    Along step C s [] := trivial

@[simp] theorem along_cons (step : σ → ε → σ) (C : σ → ε → Prop) (s : σ) (e : ε)
    (es : List ε) : Along step C s (e :: es) ↔ C s e ∧ Along step C (step s e) es := Iff.rfl

instance decidableAlong {step : σ → ε → σ} {C : σ → ε → Prop} [∀ s, DecidablePred (C s)]
    (s : σ) : (es : List ε) → Decidable (Along step C s es)
  | [] => .isTrue trivial
  | e :: es => @instDecidableAnd _ _ _ (decidableAlong (step s e) es)

theorem run_invariant {step : σ → ε → σ} {I : σ → Prop}
    (keeps : ∀ s e, I s → I (step s e)) {s : σ} (start : I s) (es : List ε) :
    I (run step s es) := by
  induction es generalizing s with
  | nil => exact start
  | cons e es ih => exact ih (keeps s e start)

theorem run_invariant_on {step : σ → ε → σ} {I : σ → Prop} {E : ε → Prop}
    (keeps : ∀ s e, I s → E e → I (step s e)) {s : σ} (start : I s) {es : List ε}
    (all : ∀ e ∈ es, E e) : I (run step s es) := by
  induction es generalizing s with
  | nil => exact start
  | cons e es ih =>
    exact ih (keeps s e start (all e List.mem_cons_self))
      fun e' he => all e' (List.mem_cons_of_mem e he)

theorem run_invariant_along {step : σ → ε → σ} {I : σ → Prop} {C : σ → ε → Prop}
    (keeps : ∀ s e, I s → C s e → I (step s e)) {s : σ} (start : I s) {es : List ε}
    (meets : Along step C s es) : I (run step s es) := by
  induction es generalizing s with
  | nil => exact start
  | cons e es ih => exact ih (keeps s e start meets.1) meets.2

theorem along_of_kept {step : σ → ε → σ} {I : σ → Prop} (back : ∀ s e, I (step s e) → I s)
    {s : σ} {es : List ε} (final : I (run step s es)) :
    I s ∧ Along step (fun s e => I (step s e)) s es := by
  induction es generalizing s with
  | nil => exact ⟨final, trivial⟩
  | cons e es ih =>
    obtain ⟨next, rest⟩ := ih final
    exact ⟨back s e next, next, rest⟩

theorem along_of_forall {step : σ → ε → σ} {E : ε → Prop} (s : σ) {es : List ε}
    (all : ∀ e ∈ es, E e) : Along step (fun _ e => E e) s es := by
  induction es generalizing s with
  | nil => trivial
  | cons e es ih =>
    exact ⟨all e List.mem_cons_self, ih _ fun e' he => all e' (List.mem_cons_of_mem e he)⟩

/-- A condition is exact for a property of steps when, under an invariant and in some domain, a
step that meets it has the property and keeps the invariant, and one that misses it lacks the
property. -/
theorem along_iff_of_exact_on {step : σ → ε → σ} {I : σ → Prop} {D C Q : σ → ε → Prop}
    (keeps : ∀ s e, I s → D s e → C s e → Q s e ∧ I (step s e))
    (breaks : ∀ s e, I s → D s e → ¬ C s e → ¬ Q s e) {s : σ} (start : I s) {es : List ε}
    (domain : Along step D s es) : Along step Q s es ↔ Along step C s es := by
  induction es generalizing s with
  | nil => exact Iff.rfl
  | cons e es ih =>
    by_cases h : C s e
    · obtain ⟨hq, hi⟩ := keeps s e start domain.1 h
      simp only [along_cons, h, hq, true_and, ih hi domain.2]
    · simp only [along_cons, h, breaks s e start domain.1 h, false_and]

theorem along_iff_of_exact {step : σ → ε → σ} {I : σ → Prop} {C Q : σ → ε → Prop}
    (keeps : ∀ s e, I s → C s e → Q s e ∧ I (step s e))
    (breaks : ∀ s e, I s → ¬ C s e → ¬ Q s e) {s : σ} (start : I s) (es : List ε) :
    Along step Q s es ↔ Along step C s es :=
  along_iff_of_exact_on (D := fun _ _ => True) (fun s e hi _ => keeps s e hi)
    (fun s e hi _ => breaks s e hi) start (along_of_forall s fun _ _ => trivial)

theorem along_append (step : σ → ε → σ) (C : σ → ε → Prop) (s : σ) (es fs : List ε) :
    Along step C s (es ++ fs) ↔ Along step C s es ∧ Along step C (run step s es) fs := by
  induction es generalizing s with
  | nil => simp
  | cons e es ih => simp only [List.cons_append, along_cons, ih, run_cons, and_assoc]

theorem forall_prefix_iff {step : σ → ε → σ} {Q : σ → Prop} {s : σ} {es : List ε} :
    (∀ fs, fs <+: es → Q (run step s fs)) ↔ Q s ∧ Along step (fun s e => Q (step s e)) s es := by
  induction es generalizing s with
  | nil => simp
  | cons e es ih =>
    rw [along_cons, ← ih]
    constructor
    · intro parts
      exact ⟨parts [] List.nil_prefix,
        fun fs part => parts (e :: fs) (List.cons_prefix_cons.mpr ⟨rfl, part⟩)⟩
    · rintro ⟨start, rest⟩ fs h
      cases fs with
      | nil => exact start
      | cons f fs =>
        obtain ⟨rfl, part⟩ := List.cons_prefix_cons.mp h
        exact rest fs part

theorem along_of_invariant {step : σ → ε → σ} {I : σ → Prop} {C Q : σ → ε → Prop}
    (keeps : ∀ s e, I s → C s e → Q s e ∧ I (step s e)) {s : σ} (start : I s) {es : List ε}
    (meets : Along step C s es) : Along step Q s es := by
  induction es generalizing s with
  | nil => trivial
  | cons e es ih =>
    obtain ⟨now, kept⟩ := keeps s e start meets.1
    exact ⟨now, ih kept meets.2⟩

/-- `while (!exit) next;`, with the result of its exit, for so many rounds at most. -/
def loop {ρ : Type*} (exit : σ → Option ρ) (next : σ → σ) : Nat → σ → Option ρ
  | 0, s => exit s
  | rounds + 1, s =>
    match exit s with
    | some r => some r
    | none => loop exit next rounds (next s)

theorem loop_never {ρ : Type*} {exit : σ → Option ρ} {next : σ → σ} {I : σ → Prop}
    (keeps : ∀ s, I s → exit s = none ∧ I (next s)) {s : σ} (start : I s) (rounds : Nat) :
    loop exit next rounds s = none := by
  induction rounds generalizing s with
  | zero => exact (keeps s start).1
  | succ rounds ih =>
    obtain ⟨waits, kept⟩ := keeps s start
    rw [loop, waits]
    exact ih kept

/-- What the steps of a run show, one after the other. -/
def collect {α : Type*} (step : σ → ε → σ) (see : σ → ε → List α) : σ → List ε → List α
  | _, [] => []
  | s, e :: es => see s e ++ collect step see (step s e) es

theorem collect_append {α : Type*} (step : σ → ε → σ) (see : σ → ε → List α) (s : σ)
    (es fs : List ε) : collect step see s (es ++ fs) =
      collect step see s es ++ collect step see (run step s es) fs := by
  induction es generalizing s with
  | nil => rfl
  | cons e es ih => rw [List.cons_append, collect, ih, collect, List.append_assoc, run_cons]

theorem exists_of_mem_collect {α : Type*} {step : σ → ε → σ} {see : σ → ε → List α} {s : σ}
    {es : List ε} {a : α} (mem : a ∈ collect step see s es) :
    ∃ fs e gs, es = fs ++ e :: gs ∧ a ∈ see (run step s fs) e := by
  induction es generalizing s with
  | nil => cases mem
  | cons e es ih =>
    rw [collect, List.mem_append] at mem
    rcases mem with now | later
    · exact ⟨[], e, es, rfl, now⟩
    · obtain ⟨fs, e', gs, rfl, shown⟩ := ih later
      exact ⟨e :: fs, e', gs, rfl, shown⟩

theorem collect_filterMap {α β : Type*} (step : σ → ε → σ) (see : σ → ε → List α)
    (f : α → Option β) (s : σ) (es : List ε) :
    (collect step see s es).filterMap f =
      collect step (fun s e => (see s e).filterMap f) s es := by
  induction es generalizing s with
  | nil => rfl
  | cons e es ih => rw [collect, List.filterMap_append, ih, collect]

theorem collect_flatMap {α β : Type*} (step : σ → ε → σ) (see : σ → ε → List α) (f : α → List β)
    (s : σ) (es : List ε) :
    (collect step see s es).flatMap f = collect step (fun s e => (see s e).flatMap f) s es := by
  induction es generalizing s with
  | nil => rfl
  | cons e es ih => rw [collect, List.flatMap_append, ih, collect]

/-- When a step takes from the front of what is held and puts behind it, so does a run. -/
theorem run_conserves {α : Type*} {step : σ → ε → σ} {take put : σ → ε → List α}
    (held : σ → List α) (conserves : ∀ s e, take s e ++ held (step s e) = held s ++ put s e)
    (s : σ) (es : List ε) : collect step take s es ++ held (run step s es) =
      held s ++ collect step put s es := by
  induction es generalizing s with
  | nil => exact (List.append_nil _).symm
  | cons e es ih =>
    rw [collect, run_cons, List.append_assoc, ih, ← List.append_assoc, conserves, List.append_assoc,
      collect]

/-- A machine that does with each step what the other one does with all that the step shows. -/
theorem run_follows {τ : Type*} {step : σ → ε → σ} {step' : τ → δ → τ} {see : σ → ε → List δ}
    {R : σ → τ → Prop} (follows : ∀ s t e, R s t → R (step s e) (run step' t (see s e))) {s : σ}
    {t : τ} (start : R s t) (es : List ε) :
    R (run step s es) (run step' t (collect step see s es)) := by
  induction es generalizing s t with
  | nil => exact start
  | cons e es ih =>
    rw [run_cons, collect, run_append]
    exact ih (follows s t e start)

theorem run_history {α : Type*} {step : σ → ε → σ} {see : σ → ε → List α} {h : σ → List α}
    {I : σ → Prop} (keeps : ∀ s e, I s → I (step s e) ∧ h (step s e) = h s ++ see s e) {s : σ}
    (start : I s) (es : List ε) : h (run step s es) = h s ++ collect step see s es := by
  induction es generalizing s with
  | nil => exact (List.append_nil _).symm
  | cons e es ih =>
    obtain ⟨kept, extended⟩ := keeps s e start
    rw [run_cons, ih kept, extended, collect, List.append_assoc]

theorem run_countP {α : Type*} {step : σ → ε → σ} {see : σ → ε → List α} {q : α → Bool}
    {m : σ → Nat} {I : σ → Prop}
    (keeps : ∀ s e, I s → I (step s e) ∧ m (step s e) = m s + (see s e).countP q) {s : σ}
    (start : I s) (es : List ε) :
    m (run step s es) = m s + (collect step see s es).countP q := by
  induction es generalizing s with
  | nil => rfl
  | cons e es ih =>
    obtain ⟨kept, more⟩ := keeps s e start
    rw [run_cons, ih kept, more, collect, List.countP_append, Nat.add_assoc]

theorem run_collected {α : Type*} {step : σ → ε → σ} {see : σ → ε → List α}
    {I : σ → List α → Prop} {C : σ → ε → Prop}
    (keeps : ∀ s e h, I s h → C s e → I (step s e) (h ++ see s e)) {s : σ} {h : List α}
    (start : I s h) {es : List ε} (meets : Along step C s es) :
    I (run step s es) (h ++ collect step see s es) := by
  induction es generalizing s h with
  | nil =>
    rw [collect, List.append_nil]
    exact start
  | cons e es ih =>
    rw [run_cons, collect, ← List.append_assoc]
    exact ih (keeps s e h start meets.1) meets.2

theorem exists_run_to (step : σ → ε → σ) {I G : σ → Prop} {E : ε → Prop} (μ : σ → Nat)
    (next : ∀ s, I s → ¬ G s → ∃ e, E e ∧ I (step s e) ∧ μ (step s e) < μ s) {s : σ}
    (start : I s) : ∃ es, (∀ e ∈ es, E e) ∧ I (run step s es) ∧ G (run step s es) := by
  induction hn : μ s using Nat.strong_induction_on generalizing s with
  | _ n ih =>
    by_cases goal : G s
    · exact ⟨[], by simp, start, goal⟩
    · obtain ⟨e, fits, keeps, nearer⟩ := next s start goal
      obtain ⟨es, all, kept, reached⟩ := ih (μ (step s e)) (hn ▸ nearer) keeps rfl
      exact ⟨e :: es, List.forall_mem_cons.mpr ⟨fits, all⟩, kept, reached⟩

/-- Some run of events of one kind leads to a state with the property. -/
def Leads (step : σ → ε → σ) (E : ε → Prop) (s : σ) (P : σ → Prop) : Prop :=
  ∃ es, (∀ e ∈ es, E e) ∧ P (run step s es)

namespace Leads

variable {step : σ → ε → σ} {E : ε → Prop} {s : σ} {P Q : σ → Prop}

theorem here (h : P s) : Leads step E s P := ⟨[], by simp, h⟩

theorem next {e : ε} (fits : E e) (h : Leads step E (step s e) P) : Leads step E s P := by
  obtain ⟨es, all, reached⟩ := h
  exact ⟨e :: es, List.forall_mem_cons.mpr ⟨fits, all⟩, reached⟩

theorem bind (h : Leads step E s P) (go : ∀ s, P s → Leads step E s Q) :
    Leads step E s Q := by
  obtain ⟨es, all, reached⟩ := h
  obtain ⟨fs, more, goal⟩ := go _ reached
  exact ⟨es ++ fs, List.forall_mem_append.mpr ⟨all, more⟩, by rwa [run_append]⟩

theorem mono (h : Leads step E s P) (weaker : ∀ s, P s → Q s) : Leads step E s Q :=
  h.bind fun s hs => here (weaker s hs)

/-- When every state has, short of a goal, a run that gets nearer to it, some run gets there. What
is to be said of a state is said of some view of it. -/
theorem iterate {α : Type*} {I : σ → α → Prop} {G : α → Prop} (μ : α → Nat)
    (nearer : ∀ s a, I s a → ¬ G a → Leads step E s fun s' => ∃ a', I s' a' ∧ μ a' < μ a)
    {a : α} (start : I s a) : Leads step E s fun s' => ∃ a', I s' a' ∧ G a' := by
  induction hm : μ a using Nat.strong_induction_on generalizing s a with
  | _ m ih =>
    by_cases goal : G a
    · exact here ⟨a, start, goal⟩
    · refine (nearer s a start goal).bind fun s' kept => ?_
      obtain ⟨a', kept, less⟩ := kept
      exact ih (μ a') (hm ▸ less) kept rfl

end Leads

def trace (step : σ → ε → σ) (s : σ) (f : Nat → ε) : Nat → σ
  | 0 => s
  | n + 1 => step (trace step s f n) (f n)

theorem trace_add (step : σ → ε → σ) (s : σ) (f : Nat → ε) (n k : Nat) :
    trace step s f (n + k) =
      run step (trace step s f n) ((List.range k).map fun j => f (n + j)) := by
  induction k with
  | zero => rfl
  | succ k ih =>
    rw [← Nat.add_assoc, trace, ih, List.range_succ, List.map_append, List.map_singleton,
      run_concat]

theorem along_trace_iff {step : σ → ε → σ} {C : σ → ε → Prop} {s : σ} {f : Nat → ε} :
    (∀ n, Along step C s ((List.range n).map f)) ↔ ∀ n, C (trace step s f n) (f n) := by
  have reached : ∀ n, run step s ((List.range n).map f) = trace step s f n := by
    intro n
    have part := trace_add step s f 0 n
    simp only [Nat.zero_add] at part
    exact part.symm
  constructor
  · intro parts n
    have part := parts (n + 1)
    rw [List.range_succ, List.map_append, along_append, reached] at part
    exact part.2.1
  · intro steps n
    induction n with
    | zero => trivial
    | succ n ih =>
      rw [List.range_succ, List.map_append, along_append, reached]
      exact ⟨ih, steps n, trivial⟩

theorem exists_endless {step : σ → ε → σ} {S : σ → Prop} {E : ε → Prop} {μ : σ → Nat}
    (next : ∀ s, S s → ∃ e, E e ∧ S (step s e) ∧ μ s < μ (step s e)) {s : σ} (start : S s) :
    ∃ f : Nat → ε, (∀ n, E (f n)) ∧
      ∀ n, S (trace step s f n) ∧ μ (trace step s f n) < μ (trace step s f (n + 1)) := by
  choose pick fits keeps grows using next
  let states : Nat → { s // S s } := fun n =>
    n.rec ⟨s, start⟩ fun _ t => ⟨step t.1 (pick t.1 t.2), keeps t.1 t.2⟩
  let f : Nat → ε := fun n => pick (states n).1 (states n).2
  have same : ∀ n, trace step s f n = (states n).1 := by
    intro n
    induction n with
    | zero => rfl
    | succ n ih => rw [trace, ih]
  refine ⟨f, fun n => fits _ _, fun n => ⟨by rw [same]; exact (states n).2, ?_⟩⟩
  rw [same, same]
  exact grows _ _

end ThriftAsio.Machine
