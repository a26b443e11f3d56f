import Mathlib.Data.List.Basic

/-! Asynchronous operations of a single-threaded event loop. A started operation stays in the
table until its handler is run; its result is set once, by completion or by cancellation,
whichever comes first, so cancelling never changes what has already finished.
Which operation finishes next and which handler is run next is left to the environment. -/

namespace ThriftAsio.Proactor

variable {κ ρ : Type*}

structure Op (κ ρ : Type*) where
  kind : κ
  result : Option ρ
  deriving DecidableEq, Repr

abbrev Ops (κ ρ : Type*) := List (Op κ ρ)

/-- The first result an operation is given is the one its handler gets. -/
def Op.settle (r : ρ) (o : Op κ ρ) : Op κ ρ := { o with result := o.result.or (some r) }

def start (k : κ) (ops : Ops κ ρ) : Ops κ ρ := ops ++ [⟨k, none⟩]

/-- An operation that fails at once still completes through the event loop. -/
def startFailed (k : κ) (r : ρ) (ops : Ops κ ρ) : Ops κ ρ := ops ++ [⟨k, some r⟩]

def finish (i : Nat) (r : ρ) (ops : Ops κ ρ) : Ops κ ρ := ops.modify i (Op.settle r)

def cancel (r : ρ) (ops : Ops κ ρ) : Ops κ ρ := ops.map (Op.settle r)

def cancelWhere (p : κ → Bool) (r : ρ) (ops : Ops κ ρ) : Ops κ ρ :=
  ops.map fun o => if p o.kind then o.settle r else o

def kinds (ops : Ops κ ρ) : List κ := ops.map Op.kind

/-- The operation at `i` and its result, once its handler can be run. -/
def ready (ops : Ops κ ρ) (i : Nat) : Option (κ × ρ) :=
  ops[i]?.bind fun o => o.result.map fun r => (o.kind, r)

@[simp] theorem settle_kind (r : ρ) (o : Op κ ρ) : (o.settle r).kind = o.kind := rfl

@[simp] theorem kinds_nil : kinds ([] : Ops κ ρ) = [] := rfl

@[simp] theorem kinds_cons (o : Op κ ρ) (ops : Ops κ ρ) :
    kinds (o :: ops) = o.kind :: kinds ops := rfl

@[simp] theorem kinds_append (ops more : Ops κ ρ) :
    kinds (ops ++ more) = kinds ops ++ kinds more := List.map_append

@[simp] theorem kinds_start (k : κ) (ops : Ops κ ρ) :
    kinds (start k ops) = kinds ops ++ [k] := by simp [start]

@[simp] theorem kinds_startFailed (k : κ) (r : ρ) (ops : Ops κ ρ) :
    kinds (startFailed k r ops) = kinds ops ++ [k] := by simp [startFailed]

@[simp] theorem kinds_finish (i : Nat) (r : ρ) (ops : Ops κ ρ) :
    kinds (finish i r ops) = kinds ops := by
  induction ops generalizing i with
  | nil => simp [finish]
  | cons o ops ih =>
    cases i with
    | zero => simp [finish, kinds]
    | succ i => simpa [finish, kinds] using ih i

@[simp] theorem kinds_cancel (r : ρ) (ops : Ops κ ρ) : kinds (cancel r ops) = kinds ops := by
  simp [kinds, cancel, Function.comp_def]

@[simp] theorem cancel_cancel (r : ρ) (ops : Ops κ ρ) :
    cancel r (cancel r ops) = cancel r ops := by
  simp only [cancel, List.map_map]
  refine List.map_congr_left fun o _ => ?_
  cases h : o.result <;> simp [Op.settle, h]

theorem forall_start {P : Op κ ρ → Prop} {ops : Ops κ ρ} (h : ∀ o ∈ ops, P o) {k : κ}
    (new : P ⟨k, none⟩) : ∀ o ∈ start k ops, P o := by
  simpa [start, or_imp, forall_and] using ⟨h, new⟩

theorem forall_finish {P : Op κ ρ → Prop} {ops : Ops κ ρ} (h : ∀ o ∈ ops, P o) {r : ρ}
    (settled : ∀ o, P o → P (o.settle r)) (i : Nat) : ∀ o ∈ finish i r ops, P o := by
  intro o ho
  obtain ⟨j, hj, rfl⟩ := List.mem_iff_getElem.mp ho
  simp only [finish, List.getElem_modify]
  split
  · exact settled _ (h _ (List.getElem_mem _))
  · exact h _ (List.getElem_mem _)

theorem exists_finish {ops : Ops κ ρ} {o : Op κ ρ} (h : o ∈ ops) (i : Nat) (r : ρ) :
    ∃ o' ∈ finish i r ops, o' = o ∨ o' = o.settle r := by
  obtain ⟨j, hj, rfl⟩ := List.mem_iff_getElem.mp h
  have hj' : j < (finish i r ops).length := by simpa [finish] using hj
  refine ⟨(finish i r ops)[j], List.getElem_mem _, ?_⟩
  simp only [finish, List.getElem_modify]
  split
  · exact .inr rfl
  · exact .inl rfl

theorem forall_eraseIdx {P : Op κ ρ → Prop} {ops : Ops κ ρ} (h : ∀ o ∈ ops, P o) (i : Nat) :
    ∀ o ∈ ops.eraseIdx i, P o := fun o ho => h o (List.mem_of_mem_eraseIdx ho)

theorem eraseIdx_split {ops : Ops κ ρ} {i : Nat} {o : Op κ ρ} (h : ops[i]? = some o) :
    ∃ before after, ops = before ++ o :: after ∧ ops.eraseIdx i = before ++ after := by
  obtain ⟨inside, rfl⟩ := List.getElem?_eq_some_iff.mp h
  refine ⟨ops.take i, ops.drop (i + 1), ?_, List.eraseIdx_eq_take_drop_succ ops i⟩
  rw [List.getElem_cons_drop, List.take_append_drop]

theorem getElem?_of_ready {ops : Ops κ ρ} {i : Nat} {k : κ} {r : ρ}
    (h : ready ops i = some (k, r)) : ops[i]? = some ⟨k, some r⟩ := by
  obtain ⟨⟨kind, result⟩, found, settled⟩ := Option.bind_eq_some_iff.mp h
  obtain ⟨r', rfl, same⟩ := Option.map_eq_some_iff.mp settled
  obtain ⟨rfl, rfl⟩ := Prod.mk.inj same
  exact found

theorem ready_split {ops : Ops κ ρ} {i : Nat} {k : κ} {r : ρ} (h : ready ops i = some (k, r)) :
    ∃ before after, ops = before ++ ⟨k, some r⟩ :: after ∧
      ops.eraseIdx i = before ++ after := eraseIdx_split (getElem?_of_ready h)

theorem length_eraseIdx {ops : Ops κ ρ} {i : Nat} {k : κ} {r : ρ} (h : ready ops i = some (k, r)) :
    (ops.eraseIdx i).length + 1 = ops.length := by
  obtain ⟨before, after, all, rest⟩ := ready_split h
  rw [rest, all, List.length_append, List.length_append, List.length_cons]
  omega

theorem ready_mem {ops : Ops κ ρ} {i : Nat} {k : κ} {r : ρ} (h : ready ops i = some (k, r)) :
    (⟨k, some r⟩ : Op κ ρ) ∈ ops := by
  obtain ⟨before, after, hops, -⟩ := ready_split h
  simp [hops]

theorem exists_ready {ops : Ops κ ρ} {k : κ} {r : ρ} (h : (⟨k, some r⟩ : Op κ ρ) ∈ ops) :
    ∃ i, ready ops i = some (k, r) := by
  obtain ⟨i, hi⟩ := List.mem_iff_getElem?.mp h
  exact ⟨i, by simp [ready, hi]⟩

theorem ready_finish {ops : Ops κ ρ} {i : Nat} {k : κ} (h : ops[i]? = some ⟨k, none⟩) (r : ρ) :
    ready (finish i r ops) i = some (k, r) := by
  simp [ready, finish, h, Op.settle]

theorem countP_finish {p : Op κ ρ → Bool} {r : ρ} (same : ∀ o, p (o.settle r) = p o)
    (i : Nat) (ops : Ops κ ρ) : (finish i r ops).countP p = ops.countP p := by
  induction ops generalizing i with
  | nil => simp [finish]
  | cons o ops ih =>
    cases i with
    | zero => simp [finish, List.countP_cons, same]
    | succ i =>
      have rest := ih i
      simp only [finish] at rest
      simp [finish, List.countP_cons, rest]

theorem countP_finish_le {p : Op κ ρ → Bool} {r : ρ} (fewer : ∀ o, p (o.settle r) → p o)
    (i : Nat) (ops : Ops κ ρ) : (finish i r ops).countP p ≤ ops.countP p := by
  induction ops generalizing i with
  | nil => simp [finish]
  | cons o ops ih =>
    cases i with
    | zero =>
      have first := fewer o
      simp only [finish, List.modify_zero_cons, List.countP_cons]
      by_cases h : p (o.settle r)
      · simp [h, first h]
      · simp [h]
    | succ i =>
      have rest := ih i
      simp only [finish] at rest
      simpa [finish, List.countP_cons] using rest

theorem countP_eraseIdx {ops : Ops κ ρ} {i : Nat} {k : κ} {r : ρ}
    (h : ready ops i = some (k, r)) (p : Op κ ρ → Bool) :
    (ops.eraseIdx i).countP p + (if p ⟨k, some r⟩ then 1 else 0) = ops.countP p := by
  obtain ⟨before, after, hops, herase⟩ := ready_split h
  rw [herase, hops, List.countP_append, List.countP_append, List.countP_cons]
  omega

theorem ready_single {o : Op κ ρ} {i : Nat} {k : κ} {r : ρ} (h : ready [o] i = some (k, r)) :
    o = ⟨k, some r⟩ ∧ [o].eraseIdx i = [] := by
  cases i with
  | zero =>
    have found : [o][0]? = some ⟨k, some r⟩ := getElem?_of_ready h
    exact ⟨Option.some.inj found, rfl⟩
  | succ i => cases h

theorem finish_single (o : Op κ ρ) (i : Nat) (r : ρ) :
    finish i r [o] = [o] ∨ finish i r [o] = [o.settle r] := by
  cases i with
  | zero => exact .inr rfl
  | succ i => exact .inl (by simp [finish])

theorem finish_split {ops : Ops κ ρ} {i : Nat} {o : Op κ ρ} (h : ops[i]? = some o) (r : ρ) :
    ∃ before after, ops = before ++ o :: after ∧
      finish i r ops = before ++ o.settle r :: after := by
  induction ops generalizing i with
  | nil => simp at h
  | cons first ops ih =>
    cases i with
    | zero =>
      obtain rfl : first = o := by simpa using h
      exact ⟨[], ops, rfl, rfl⟩
    | succ i =>
      obtain ⟨before, after, hops, hfinish⟩ := ih (i := i) (by simpa using h)
      refine ⟨first :: before, after, by rw [hops]; rfl, ?_⟩
      simp only [finish] at hfinish
      simp [finish, hfinish]

theorem finish_of_none {ops : Ops κ ρ} {i : Nat} (h : ops[i]? = none) (r : ρ) :
    finish i r ops = ops := by
  rw [finish, List.modify_eq_self (List.getElem?_eq_none_iff.mp h)]

section Select

variable {μ : Type*} (f : κ → Option μ)

def select (ops : Ops κ ρ) : Ops μ ρ := ops.filterMap fun o => (f o.kind).map fun m => ⟨m, o.result⟩

@[simp] theorem select_append (ops more : Ops κ ρ) :
    select f (ops ++ more) = select f ops ++ select f more := List.filterMap_append

theorem select_cons (o : Op κ ρ) (ops : Ops κ ρ) :
    select f (o :: ops) = ((f o.kind).map fun m => ⟨m, o.result⟩).toList ++ select f ops := by
  rw [select, List.filterMap_cons]
  cases f o.kind <;> rfl

@[simp] theorem select_cancel (r : ρ) (ops : Ops κ ρ) :
    select f (cancel r ops) = cancel r (select f ops) := by
  induction ops with
  | nil => rfl
  | cons o ops ih =>
    have tail : cancel r (o :: ops) = o.settle r :: cancel r ops := rfl
    rw [tail, select_cons, select_cons, ih, settle_kind]
    cases f o.kind <;> rfl

end Select

end ThriftAsio.Proactor
