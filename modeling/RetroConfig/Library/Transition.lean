import Mathlib.Data.List.Basic

/-!
# Runs of a failing step function

A system is given by a step function `next : σ → α → Except ε σ`. `run` performs the
operations of a list in order and stops at the first failure. The rules below are
the only inductions over operation lists that the invariant proofs need:

* `run_total`: if every step succeeds from an invariant state and keeps the invariant, every
  run does;
* `run_legal`: the same when an operation may be made only in certain states;
* `run_legal_history`: the same for an invariant that speaks of the operations made so far.

For a step function that cannot fail, `always_iff` says when a property holds in every state
of a run: if a step keeps it exactly when it meets a condition, all states have the property
exactly if all steps meet the condition. `always_of_each` is the invariant rule for such runs,
`each_of_each` the rule for what steps do.
-/

namespace Transition

variable {σ α ε : Type}

/-- The state after the operations of a list, or the first failure among them. -/
def run (next : σ → α → Except ε σ) (s : σ) (ops : List α) : Except ε σ :=
  ops.foldlM next s

theorem run_cons (next : σ → α → Except ε σ) (s : σ) (op : α) (ops : List α) :
    run next s (op :: ops) = next s op >>= fun t => run next t ops := by
  simp [run, List.foldlM_cons]

theorem run_append (next : σ → α → Except ε σ) (s : σ) (ops rest : List α) :
    run next s (ops ++ rest) = run next s ops >>= fun t => run next t rest := by
  simp [run, List.foldlM_append]

@[simp] theorem ok_bind {β γ : Type} (b : β) (f : β → Except ε γ) : Except.ok b >>= f = f b := rfl

theorem bind_eq_ok {β γ : Type} {x : Except ε β} {f : β → Except ε γ} {c : γ}
    (h : x >>= f = .ok c) : ∃ b, x = .ok b ∧ f b = .ok c := by
  cases x with
  | error e => cases h
  | ok b => exact ⟨b, rfl, h⟩

/-- If every step succeeds from an invariant state and keeps the invariant, every run
succeeds and ends in an invariant state. -/
theorem run_total {next : σ → α → Except ε σ} {I : σ → Prop}
    (hStep : ∀ s op, I s → ∃ t, next s op = .ok t ∧ I t) {s : σ} (h0 : I s) (ops : List α) :
    ∃ t, run next s ops = .ok t ∧ I t := by
  induction ops generalizing s with
  | nil => exact ⟨s, rfl, h0⟩
  | cons op ops ih =>
    obtain ⟨u, hu, hI⟩ := hStep s op h0
    obtain ⟨t, ht, hIt⟩ := ih hI
    exact ⟨t, by rw [run_cons, hu]; exact ht, hIt⟩

/-- Every operation of a list is allowed in the state in which it is made. -/
def Legal (allowed : σ → α → Prop) (next : σ → α → Except ε σ) : σ → List α → Prop
  | _, [] => True
  | s, op :: ops => allowed s op ∧ ∀ t, next s op = .ok t → Legal allowed next t ops

/-- If every allowed step succeeds from an invariant state and keeps the invariant, every
run of allowed operations succeeds and ends in an invariant state. -/
theorem run_legal {next : σ → α → Except ε σ} {allowed : σ → α → Prop} {I : σ → Prop}
    (hStep : ∀ s op, I s → allowed s op → ∃ t, next s op = .ok t ∧ I t) {s : σ} {ops : List α}
    (h0 : I s) (hLegal : Legal allowed next s ops) : ∃ t, run next s ops = .ok t ∧ I t := by
  induction ops generalizing s with
  | nil => exact ⟨s, rfl, h0⟩
  | cons op ops ih =>
    obtain ⟨hAllowed, hRest⟩ := hLegal
    obtain ⟨u, hu, hI⟩ := hStep s op h0 hAllowed
    obtain ⟨t, ht, hIt⟩ := ih hI (hRest u hu)
    exact ⟨t, by rw [run_cons, hu]; exact ht, hIt⟩

/-- The same for an invariant that speaks of the operations made so far. -/
theorem run_legal_history {next : σ → α → Except ε σ} {allowed : σ → α → Prop}
    {I : List α → σ → Prop}
    (hStep : ∀ done s op, I done s → allowed s op → ∃ t, next s op = .ok t ∧ I (done ++ [op]) t)
    {done : List α} {s : σ} {ops : List α} (h0 : I done s) (hLegal : Legal allowed next s ops) :
    ∃ t, run next s ops = .ok t ∧ I (done ++ ops) t := by
  induction ops generalizing done s with
  | nil => exact ⟨s, rfl, by rwa [List.append_nil]⟩
  | cons op ops ih =>
    obtain ⟨hAllowed, hRest⟩ := hLegal
    obtain ⟨u, hu, hI⟩ := hStep done s op h0 hAllowed
    obtain ⟨t, ht, hIt⟩ := ih hI (hRest u hu)
    rw [List.append_assoc] at hIt
    exact ⟨t, by rw [run_cons, hu]; exact ht, hIt⟩

theorem Legal.and_mem {allowed : σ → α → Prop} {next : σ → α → Except ε σ} {P : α → Prop} {s : σ}
    {ops : List α} (h : Legal allowed next s ops) (hMem : ∀ op ∈ ops, P op) :
    Legal (fun s op => allowed s op ∧ P op) next s ops := by
  induction ops generalizing s with
  | nil => trivial
  | cons op ops ih =>
    obtain ⟨hAllowed, hRest⟩ := h
    exact ⟨⟨hAllowed, hMem op List.mem_cons_self⟩,
      fun t ht => ih (hRest t ht) fun op hOp => hMem op (List.mem_cons_of_mem _ hOp)⟩

theorem Legal.append {next : σ → α → Except ε σ} {allowed : σ → α → Prop} {s : σ}
    {ops rest : List α} (h : Legal allowed next s (ops ++ rest)) :
    Legal allowed next s ops ∧ ∀ t, run next s ops = .ok t → Legal allowed next t rest := by
  induction ops generalizing s with
  | nil =>
    refine ⟨trivial, ?_⟩
    rintro t ⟨⟩
    exact h
  | cons op ops ih =>
    obtain ⟨hAllowed, hRest⟩ := h
    refine ⟨⟨hAllowed, fun u hu => (ih (hRest u hu)).1⟩, ?_⟩
    intro t hRun
    rw [run_cons] at hRun
    obtain ⟨u, hu, hRun⟩ := bind_eq_ok hRun
    exact (ih (hRest u hu)).2 t hRun

/-! ## Steps that cannot fail -/

/-- Every operation of a list meets a condition in the state in which it is made. -/
def Each (next : σ → α → σ) (ok : σ → α → Prop) : σ → List α → Prop
  | _, [] => True
  | s, op :: ops => ok s op ∧ Each next ok (next s op) ops

/-- Every state from `s` on has the property. -/
def Always (next : σ → α → σ) (P : σ → Prop) : σ → List α → Prop
  | s, [] => P s
  | s, op :: ops => P s ∧ Always next P (next s op) ops

theorem each_cons {next : σ → α → σ} {ok : σ → α → Prop} {s : σ} {op : α} {ops : List α} :
    Each next ok s (op :: ops) ↔ ok s op ∧ Each next ok (next s op) ops := Iff.rfl

theorem each_of_forall {next : σ → α → σ} {ok : σ → α → Prop} (h : ∀ s op, ok s op) (s : σ)
    (ops : List α) : Each next ok s ops := by
  induction ops generalizing s with
  | nil => trivial
  | cons op ops ih => exact ⟨h s op, ih (next s op)⟩

theorem Always.head {next : σ → α → σ} {P : σ → Prop} {s : σ} {ops : List α}
    (h : Always next P s ops) : P s := by
  cases ops with
  | nil => exact h
  | cons op ops => exact h.1

/-- `I` is an invariant that the steps between states with the property keep. -/
theorem always_iff {next : σ → α → σ} {P I : σ → Prop} {legal ok : σ → α → Prop}
    (hStep : ∀ s op, P s → I s → legal s op → (P (next s op) ↔ ok s op))
    (hInv : ∀ s op, P s → I s → legal s op → P (next s op) → I (next s op)) {s : σ} {ops : List α}
    (hP : P s) (hI : I s) (hLegal : Each next legal s ops) :
    Always next P s ops ↔ Each next ok s ops := by
  induction ops generalizing s with
  | nil => exact iff_of_true hP trivial
  | cons op ops ih =>
    obtain ⟨hOp, hOps⟩ := hLegal
    have hI' := hInv s op hP hI hOp
    constructor
    · intro h
      have hP' : P (next s op) := h.2.head
      exact ⟨(hStep s op hP hI hOp).mp hP', (ih hP' (hI' hP') hOps).mp h.2⟩
    · intro h
      have hP' : P (next s op) := (hStep s op hP hI hOp).mpr h.1
      exact ⟨hP, (ih hP' (hI' hP') hOps).mpr h.2⟩

/-- If the steps that meet two conditions keep an invariant, and the invariant gives the property,
every state of a run of such steps has it. -/
theorem always_of_each {next : σ → α → σ} {P I : σ → Prop} {legal ok : σ → α → Prop}
    (hStep : ∀ s op, I s → legal s op → ok s op → I (next s op)) (hP : ∀ s, I s → P s) {s : σ}
    {ops : List α} (hI : I s) (hLegal : Each next legal s ops) (hOk : Each next ok s ops) :
    Always next P s ops := by
  induction ops generalizing s with
  | nil => exact hP s hI
  | cons op ops ih =>
    exact ⟨hP s hI, ih (hStep s op hI hLegal.1 hOk.1) hLegal.2 hOk.2⟩

/-- If the steps that meet two conditions keep an invariant and have a property, every step of a run
of such steps has it. -/
theorem each_of_each {next : σ → α → σ} {I : σ → Prop} {legal ok post : σ → α → Prop}
    (hStep : ∀ s op, I s → legal s op → ok s op → I (next s op) ∧ post s op) {s : σ} {ops : List α}
    (hI : I s) (hLegal : Each next legal s ops) (hOk : Each next ok s ops) :
    Each next post s ops := by
  induction ops generalizing s with
  | nil => trivial
  | cons op ops ih =>
    obtain ⟨hNext, hPost⟩ := hStep s op hI hLegal.1 hOk.1
    exact ⟨hPost, ih hNext hLegal.2 hOk.2⟩

theorem each_of_mem {next : σ → α → σ} {P : α → Prop} {ops : List α} (h : ∀ op ∈ ops, P op) (s : σ) :
    Each next (fun _ op => P op) s ops := by
  induction ops generalizing s with
  | nil => trivial
  | cons op ops ih =>
    exact ⟨h op List.mem_cons_self, ih (fun op hOp => h op (List.mem_cons_of_mem _ hOp)) (next s op)⟩

end Transition
