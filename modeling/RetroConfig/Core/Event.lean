import RetroConfig.Library.Transition
import Mathlib.Logic.Function.Basic
import Mathlib.Tactic.Common

/-!
# Events of an object

`Object::on` and `Object::off` (`gcore/core/IMP.cpp`) add a callback to the `std::list` of an event
and remove it; `Object::_trigger` goes through that list and invokes its callbacks, which may
themselves add and remove callbacks and trigger events. Nothing but the node of the
callback that runs says where an iteration is.

`triggers_always_iff` says that every trigger invokes the callbacks that it should exactly if
no callback is removed from the list of its event while it runs.
-/

namespace RetroConfig.EventManager

variable {ν κ : Type} [DecidableEq ν] [DecidableEq κ]

/-- A node of a `CallbackStack`. Its callback may be null. The number tells nodes apart that
are at the same address one after the other. -/
structure Node (κ : Type) where
  id : Nat
  callback : Option κ
  deriving DecidableEq

/-- An `EventHandler::call` of an event: the list when it began, the nodes whose callbacks it has
invoked, and the nodes that were erased before it came to them. -/
structure Call (ν κ : Type) where
  name : ν
  began : List (Node κ)
  invoked : List (Node κ)
  erased : List (Node κ)

/-- The lists of the events; the calls that run, the innermost first, each with the node of its
iterator; and those that ended. `lost` is set when an iterator is moved on from a node that was
erased. -/
structure State (ν κ : Type) where
  events : ν → List (Node κ)
  nextId : Nat
  calls : List (Node κ × Call ν κ)
  ended : List (Call ν κ)
  lost : Bool

/-- An object that nothing has been registered with. -/
def start (ν κ : Type) : State ν κ := ⟨fun _ => [], 0, [], [], false⟩

/-- What the program does, or the innermost callback that runs. -/
inductive Op (ν κ : Type) where
  | on (name : ν) (callback : Option κ)
  | off (name : ν) (callback : Option κ)
  | trigger (name : ν)
  /-- The innermost callback returns. -/
  | ret

namespace State

/-- `Object::on`. -/
def on (s : State ν κ) (name : ν) (callback : Option κ) : State ν κ :=
  { s with
    events := Function.update s.events name (s.events name ++ [⟨s.nextId, callback⟩])
    nextId := s.nextId + 1 }

/-- What the removal of a callback means for a call. -/
def noteErased (removed : List (Node κ)) (c : Call ν κ) : Call ν κ :=
  { c with erased := c.erased ++ removed.filter (· ∉ c.invoked) }

/-- `Object::off`: `std::list::remove` erases every node with the callback. -/
def off (s : State ν κ) (name : ν) (callback : Option κ) : State ν κ :=
  { s with
    events := Function.update s.events name ((s.events name).filter (·.callback ≠ callback))
    calls := s.calls.map fun r =>
      if r.2.name = name then
        (r.1, noteErased ((s.events name).filter (·.callback = callback)) r.2)
      else r }

/-- The loop of `EventHandler::call` from the rest of a list on: it invokes the next callback that is not
null, or ends. -/
def proceed (s : State ν κ) (c : Call ν κ) (rest : List (Node κ)) : State ν κ :=
  match rest.find? (·.callback.isSome) with
  | some node => { s with calls := (node, { c with invoked := c.invoked ++ [node] }) :: s.calls }
  | none => { s with ended := c :: s.ended }

/-- `Object::_trigger`. -/
def trigger (s : State ν κ) (name : ν) : State ν κ :=
  s.proceed ⟨name, s.events name, [], []⟩ (s.events name)

/-- What is behind a node. -/
def after (l : List (Node κ)) (node : Node κ) : List (Node κ) := (l.dropWhile (· ≠ node)).tail

/-- The innermost callback returns, and `++it1` moves the iterator on. -/
def ret (s : State ν κ) : State ν κ :=
  match s.calls with
  | [] => s
  | (it, c) :: calls =>
    if it ∈ s.events c.name then { s with calls := calls }.proceed c (after (s.events c.name) it)
    else { s with lost := true }

def act (s : State ν κ) : Op ν κ → State ν κ
  | .on name callback => s.on name callback
  | .off name callback => s.off name callback
  | .trigger name => s.trigger name
  | .ret => s.ret

/-- After an iterator was moved on from an erased node, anything may happen. -/
def next (s : State ν κ) (op : Op ν κ) : State ν κ := if s.lost then s else s.act op

end State

/-! ## What a trigger is to do -/

/-- The callbacks that were registered when the call began and not removed before their turn are, in
order, those invoked and those ahead; none is invoked twice, or after its removal. -/
structure Call.Faithful (c : Call ν κ) (ahead : List (Node κ)) : Prop where
  order : c.invoked.filter (· ∈ c.began) ++ ahead.filter (fun n => n ∈ c.began ∧ n.callback.isSome) =
    c.began.filter (fun n => n.callback.isSome ∧ n ∉ c.erased)
  once : c.invoked.Nodup
  present : ∀ n ∈ c.invoked, n ∉ c.erased

namespace State

/-- What a call has before it. -/
def ahead (s : State ν κ) (it : Node κ) (c : Call ν κ) : List (Node κ) :=
  (s.events c.name).filter (fun n => it.id < n.id)

/-- Every trigger does what it is to do: those that ended have nothing before them. -/
structure Served (s : State ν κ) : Prop where
  found : s.lost = false
  ended : ∀ c ∈ s.ended, c.Faithful []
  running : ∀ r ∈ s.calls, r.2.Faithful (s.ahead r.1 r.2)

/-- When a callback returns, its node is still there. -/
def Careful (s : State ν κ) : Op ν κ → Prop
  | .ret => ∀ r, s.calls.head? = some r → r.1 ∈ s.events r.2.name
  | _ => True

/-- The nodes that a call knows of: those behind its iterator have not been invoked, and those
that were erased are not in the list. -/
structure Known (s : State ν κ) (r : Node κ × Call ν κ) : Prop where
  began : ∀ n ∈ r.2.began, n.id < s.nextId
  invoked : ∀ n ∈ r.2.invoked, n.id ≤ r.1.id
  erased : ∀ n ∈ r.2.erased, n.id < s.nextId ∧ n ∉ s.events r.2.name

/-- Nodes stand in the order of their numbers, which are given out once. -/
structure Good (s : State ν κ) : Prop where
  sorted : ∀ name, (s.events name).Pairwise (fun m n => m.id < n.id)
  below : ∀ name, ∀ n ∈ s.events name, n.id < s.nextId
  known : ∀ r ∈ s.calls, s.Known r

variable {s : State ν κ}

/-! ## Iterators -/

/-- Behind a node are the nodes with greater numbers. -/
theorem after_eq {l : List (Node κ)} (hSorted : l.Pairwise (fun m n => m.id < n.id)) {it : Node κ}
    (hMem : it ∈ l) : after l it = l.filter (fun n => it.id < n.id) := by
  induction l with
  | nil => cases hMem
  | cons m l ih =>
    obtain ⟨hHead, hTail⟩ := List.pairwise_cons.mp hSorted
    by_cases hIt : m = it
    · subst hIt
      rw [after, List.dropWhile_cons_of_neg (by simp), List.tail_cons, List.filter_cons_of_neg (by simp)]
      exact (List.filter_eq_self.mpr fun n hn => decide_eq_true (hHead n hn)).symm
    · have hMem' : it ∈ l := (List.mem_cons.mp hMem).resolve_left fun hEq => hIt hEq.symm
      have hLt := hHead it hMem'
      rw [after, List.dropWhile_cons_of_pos (by simp [hIt]), List.filter_cons_of_neg (by simp; omega)]
      exact ih hTail hMem'

omit [DecidableEq κ] in
/-- What is behind a node, seen from the nodes with numbers from `k` on. -/
theorem filter_behind {l : List (Node κ)} (hSorted : l.Pairwise (fun m n => m.id < n.id)) {k : Nat}
    {before later : List (Node κ)} {node : Node κ}
    (hSplit : l.filter (fun n => k ≤ n.id) = before ++ node :: later) :
    l.filter (fun n => node.id < n.id) = later := by
  have hNode : k ≤ node.id := by
    have hMem : node ∈ l.filter (fun n => k ≤ n.id) := by
      rw [hSplit]
      exact List.mem_append_right _ List.mem_cons_self
    exact of_decide_eq_true (List.mem_filter.mp hMem).2
  have hFrom := hSorted.filter (fun n => decide (k ≤ n.id))
  rw [hSplit, List.pairwise_append, List.pairwise_cons] at hFrom
  obtain ⟨-, ⟨hAfter, -⟩, hBefore⟩ := hFrom
  have hTwice : l.filter (fun n => node.id < n.id) =
      (l.filter (fun n => k ≤ n.id)).filter (fun n => node.id < n.id) := by
    rw [List.filter_filter]
    refine List.filter_congr fun n _ => ?_
    by_cases hLt : node.id < n.id
    · simp [hLt]
      omega
    · simp [hLt]
  have hNil : before.filter (fun n => node.id < n.id) = [] := by
    refine List.filter_eq_nil_iff.mpr fun n hn => ?_
    have hLt := hBefore n hn node List.mem_cons_self
    simp
    omega
  have hAll : later.filter (fun n => node.id < n.id) = later :=
    List.filter_eq_self.mpr fun n hn => decide_eq_true (hAfter n hn)
  rw [hTwice, hSplit, List.filter_append, hNil, List.filter_cons_of_neg (by simp), hAll]
  rfl

omit [DecidableEq ν] in
/-- The loop goes on from the nodes with numbers from `k` on. -/
theorem proceed_good (h : Good s) (hServed : Served s) {c : Call ν κ} {k : Nat}
    (hFaithful : c.Faithful ((s.events c.name).filter (fun n => k ≤ n.id)))
    (hBegan : ∀ n ∈ c.began, n.id < s.nextId) (hInvoked : ∀ n ∈ c.invoked, n.id < k)
    (hErased : ∀ n ∈ c.erased, n.id < s.nextId ∧ n ∉ s.events c.name) :
    Good (s.proceed c ((s.events c.name).filter (fun n => k ≤ n.id))) ∧
      Served (s.proceed c ((s.events c.name).filter (fun n => k ≤ n.id))) := by
  unfold proceed
  split
  · next node hFind =>
    obtain ⟨hSome, nulls, later, hSplit, hNulls⟩ := List.find?_eq_some_iff_append.mp hFind
    have hMem : node ∈ (s.events c.name).filter (fun n => k ≤ n.id) := List.mem_of_find?_eq_some hFind
    obtain ⟨hNode, hLe⟩ := List.mem_filter.mp hMem
    have hLe := of_decide_eq_true hLe
    have hLater : s.ahead node { c with invoked := c.invoked ++ [node] } = later :=
      filter_behind (h.sorted c.name) hSplit
    have hNew : node ∉ c.invoked := fun hOld => by
      have hLt := hInvoked node hOld
      omega
    have hNotErased : node ∉ c.erased := fun hOld => (hErased node hOld).2 hNode
    refine ⟨⟨h.sorted, h.below, ?_⟩, hServed.found, hServed.ended, ?_⟩
    · refine List.forall_mem_cons.mpr ⟨⟨hBegan, ?_, hErased⟩, fun r hr => ?_⟩
      · intro n hn
        rcases List.mem_append.mp hn with hOld | hLast
        · have hLt := hInvoked n hOld
          change n.id ≤ node.id
          omega
        · exact Nat.le_of_eq (congrArg Node.id (List.mem_singleton.mp hLast))
      · exact ⟨(h.known r hr).began, (h.known r hr).invoked, (h.known r hr).erased⟩
    · refine List.forall_mem_cons.mpr ⟨⟨?_, ?_, ?_⟩, hServed.running⟩
      · change (c.invoked ++ [node]).filter (· ∈ c.began) ++
          (s.ahead node { c with invoked := c.invoked ++ [node] }).filter _ = _
        have hNulls' : nulls.filter (fun n => n ∈ c.began ∧ n.callback.isSome) = [] := by
          refine List.filter_eq_nil_iff.mpr fun n hn => ?_
          have hNull := hNulls n hn
          simp at hNull
          simp [hNull]
        rw [hLater, ← hFaithful.order, hSplit, List.filter_append, List.filter_append, hNulls',
          List.append_assoc]
        by_cases hOld : node ∈ c.began
        · simp [hOld, hSome]
        · simp [hOld]
      · exact List.nodup_append.mpr ⟨hFaithful.once, by simp, fun m hm n hn => by
          rw [List.mem_singleton.mp hn]
          exact fun hEq => hNew (hEq ▸ hm)⟩
      · intro n hn
        rcases List.mem_append.mp hn with hOld | hLast
        · exact hFaithful.present n hOld
        · rw [List.mem_singleton.mp hLast]
          exact hNotErased
  · next hFind =>
    refine ⟨⟨h.sorted, h.below, fun r hr => ?_⟩, hServed.found, ?_, hServed.running⟩
    · exact ⟨(h.known r hr).began, (h.known r hr).invoked, (h.known r hr).erased⟩
    · refine List.forall_mem_cons.mpr ⟨⟨?_, hFaithful.once, hFaithful.present⟩, hServed.ended⟩
      have hNone : ((s.events c.name).filter (fun n => k ≤ n.id)).filter
          (fun n => n ∈ c.began ∧ n.callback.isSome) = [] := by
        refine List.filter_eq_nil_iff.mpr fun n hn => ?_
        have hNull := List.find?_eq_none.mp hFind n hn
        simp at hNull
        simp [hNull]
      have hOrder := hFaithful.order
      rw [hNone] at hOrder
      exact hOrder

/-! ## Single steps -/

omit [DecidableEq ν] in
theorem Good.trigger (h : Good s) (hServed : Served s) (name : ν) :
    Good (s.trigger name) ∧ Served (s.trigger name) := by
  have hAll : (s.events name).filter (fun n => 0 ≤ n.id) = s.events name :=
    List.filter_eq_self.mpr fun n _ => by simp
  have hFaithful : (⟨name, s.events name, [], []⟩ : Call ν κ).Faithful
      ((s.events name).filter (fun n => 0 ≤ n.id)) := by
    refine ⟨?_, List.nodup_nil, fun n hn => by cases hn⟩
    rw [hAll]
    refine List.filter_congr fun n hn => ?_
    simp [hn]
  have hProceed := proceed_good h hServed hFaithful (h.below name) (fun n hn => by cases hn)
    (fun n hn => by cases hn)
  rw [hAll] at hProceed
  exact hProceed

omit [DecidableEq ν] in
theorem Good.ret (h : Good s) (hServed : Served s) (hCareful : Careful s .ret) :
    Good s.ret ∧ Served s.ret := by
  unfold State.ret
  split
  · exact ⟨h, hServed⟩
  · next it c calls hCalls =>
    have hIt : it ∈ s.events c.name := hCareful (it, c) (by rw [hCalls]; rfl)
    have hHead : (it, c) ∈ s.calls := by
      rw [hCalls]
      exact List.mem_cons_self
    have hTail : ∀ r ∈ calls, r ∈ s.calls := by
      rw [hCalls]
      exact fun r hr => List.mem_cons_of_mem _ hr
    have hKnown := h.known (it, c) hHead
    have hGood : Good { s with calls := calls } :=
      ⟨h.sorted, h.below, fun r hr => ⟨(h.known r (hTail r hr)).began, (h.known r (hTail r hr)).invoked,
        (h.known r (hTail r hr)).erased⟩⟩
    have hRest : Served { s with calls := calls } :=
      ⟨hServed.found, hServed.ended, fun r hr => hServed.running r (hTail r hr)⟩
    rw [if_pos hIt, after_eq (h.sorted c.name) hIt]
    exact proceed_good (k := it.id + 1) hGood hRest (hServed.running (it, c) hHead) hKnown.began
      (fun n hn => Nat.lt_succ_of_le (hKnown.invoked n hn)) hKnown.erased

theorem Good.on (h : Good s) (hServed : Served s) (name : ν) (callback : Option κ) :
    Good (s.on name callback) ∧ Served (s.on name callback) := by
  have hEvents : ∀ other, (s.on name callback).events other =
      s.events other ++ if other = name then [⟨s.nextId, callback⟩] else [] := by
    intro other
    by_cases hName : other = name
    · subst hName
      simp [State.on]
    · simp [State.on, hName]
  have hMem : ∀ other, ∀ n ∈ (s.on name callback).events other,
      n ∈ s.events other ∨ n = ⟨s.nextId, callback⟩ := by
    intro other n hn
    rw [hEvents] at hn
    refine (List.mem_append.mp hn).imp_right fun hNew => ?_
    split at hNew
    · exact List.mem_singleton.mp hNew
    · cases hNew
  refine ⟨⟨?_, ?_, ?_⟩, hServed.found, hServed.ended, ?_⟩
  · intro other
    rw [hEvents]
    refine List.pairwise_append.mpr ⟨h.sorted other, ?_, fun m hm n hn => ?_⟩
    · split <;> simp
    · split at hn
      · rw [List.mem_singleton.mp hn]
        exact h.below other m hm
      · cases hn
  · intro other n hn
    change n.id < s.nextId + 1
    rcases hMem other n hn with hOld | rfl
    · exact Nat.lt_succ_of_lt (h.below other n hOld)
    · exact Nat.lt_succ_self _
  · intro r hr
    have hKnown := h.known r hr
    refine ⟨fun n hn => Nat.lt_succ_of_lt (hKnown.began n hn), hKnown.invoked, fun n hn => ?_⟩
    obtain ⟨hLt, hGone⟩ := hKnown.erased n hn
    refine ⟨Nat.lt_succ_of_lt hLt, fun hIn => ?_⟩
    rcases hMem _ n hIn with hOld | rfl
    · exact hGone hOld
    · exact Nat.lt_irrefl _ hLt
  · intro r hr
    have hFaithful := hServed.running r hr
    refine ⟨?_, hFaithful.once, hFaithful.present⟩
    rw [← hFaithful.order, ahead, ahead, hEvents, List.filter_append, List.filter_append]
    have hNew : (⟨s.nextId, callback⟩ : Node κ) ∉ r.2.began := fun hOld =>
      Nat.lt_irrefl _ ((h.known r hr).began _ hOld)
    split
    · simp [List.filter_cons, hNew]
    · simp

omit [DecidableEq ν] in
/-- A call goes on as it should when nodes are erased: those ahead of it are struck from what it is
to invoke. -/
theorem faithful_noteErased {r : Node κ × Call ν κ} (hKnown : s.Known r)
    (hFaithful : r.2.Faithful (s.ahead r.1 r.2)) (callback : Option κ) :
    (noteErased ((s.events r.2.name).filter (·.callback = callback)) r.2).Faithful
      (((s.events r.2.name).filter (·.callback ≠ callback)).filter (fun n => r.1.id < n.id)) := by
  have hErased : ∀ n, n ∈ ((s.events r.2.name).filter (·.callback = callback)).filter
      (· ∉ r.2.invoked) ↔ n ∈ s.events r.2.name ∧ n.callback = callback ∧ n ∉ r.2.invoked := by
    intro n
    rw [List.mem_filter, List.mem_filter, decide_eq_true_iff, decide_eq_true_iff, and_assoc]
  unfold noteErased
  generalize ((s.events r.2.name).filter (·.callback = callback)).filter
    (· ∉ r.2.invoked) = struck at hErased ⊢
  refine ⟨?_, hFaithful.once, fun n hn => ?_⟩
  · have hOrder := congrArg (List.filter (· ∉ struck)) hFaithful.order
    have hInvoked : (r.2.invoked.filter (· ∈ r.2.began)).filter (· ∉ struck) =
        r.2.invoked.filter (· ∈ r.2.began) := by
      refine List.filter_eq_self.mpr fun n hn => decide_eq_true fun hStruck => ?_
      exact ((hErased n).mp hStruck).2.2 (List.mem_filter.mp hn).1
    have hAhead : ((s.ahead r.1 r.2).filter (fun n => n ∈ r.2.began ∧ n.callback.isSome)).filter
        (· ∉ struck) =
        (((s.events r.2.name).filter (·.callback ≠ callback)).filter (fun n => r.1.id < n.id)).filter
          (fun n => n ∈ r.2.began ∧ n.callback.isSome) := by
      rw [ahead, List.filter_filter, List.filter_filter, List.filter_filter, List.filter_filter]
      refine List.filter_congr fun n hn => ?_
      by_cases hLt : r.1.id < n.id
      · have hNot : n ∉ r.2.invoked := fun hOld => by
          have hLe := hKnown.invoked n hOld
          omega
        have hIff : n ∈ struck ↔ n.callback = callback := by
          rw [hErased n]
          exact ⟨fun hAll => hAll.2.1, fun hEq => ⟨hn, hEq, hNot⟩⟩
        by_cases hEq : n.callback = callback
        · simp [hIff.mpr hEq, hEq]
        · simp [mt hIff.mp hEq, hEq, hLt]
      · simp [hLt]
    have hBegan : (r.2.began.filter (fun n => n.callback.isSome ∧ n ∉ r.2.erased)).filter
        (· ∉ struck) = r.2.began.filter (fun n => n.callback.isSome ∧ n ∉ r.2.erased ++ struck) := by
      rw [List.filter_filter]
      refine List.filter_congr fun n _ => ?_
      by_cases hStruck : n ∈ struck <;> simp [hStruck]
    rw [List.filter_append, hInvoked, hAhead, hBegan] at hOrder
    exact hOrder
  · rw [List.mem_append, not_or]
    exact ⟨hFaithful.present n hn, fun hStruck => ((hErased n).mp hStruck).2.2 hn⟩

theorem Good.off (h : Good s) (hServed : Served s) (name : ν) (callback : Option κ) :
    Good (s.off name callback) ∧ Served (s.off name callback) := by
  have hEvents : ∀ other, (s.off name callback).events other =
      if other = name then (s.events other).filter (·.callback ≠ callback) else s.events other := by
    intro other
    by_cases hName : other = name
    · subst hName
      simp [State.off]
    · simp [State.off, hName]
  have hSub : ∀ other, ((s.off name callback).events other).Sublist (s.events other) := by
    intro other
    rw [hEvents]
    split
    · exact List.filter_sublist
    · exact .refl _
  refine ⟨⟨?_, ?_, ?_⟩, hServed.found, hServed.ended, ?_⟩
  · exact fun other => (h.sorted other).sublist (hSub other)
  · exact fun other n hn => h.below other n ((hSub other).subset hn)
  · intro r' hr'
    obtain ⟨r, hr, rfl⟩ := List.mem_map.mp hr'
    have hKnown := h.known r hr
    split
    · next hName =>
      refine ⟨hKnown.began, hKnown.invoked, fun n hn => ?_⟩
      rcases List.mem_append.mp hn with hOld | hNew
      · exact ⟨(hKnown.erased n hOld).1, fun hIn => (hKnown.erased n hOld).2 ((hSub _).subset hIn)⟩
      · obtain ⟨hIn, hEq⟩ := List.mem_filter.mp (List.mem_filter.mp hNew).1
        refine ⟨h.below name n hIn, fun hStill => ?_⟩
        have hStill : n ∈ (s.off name callback).events r.2.name := hStill
        rw [hEvents, if_pos hName] at hStill
        simp at hEq
        simp [hEq] at hStill
    · exact ⟨hKnown.began, hKnown.invoked, fun n hn =>
        ⟨(hKnown.erased n hn).1, fun hIn => (hKnown.erased n hn).2 ((hSub _).subset hIn)⟩⟩
  · intro r' hr'
    obtain ⟨r, hr, rfl⟩ := List.mem_map.mp hr'
    have hFaithful := hServed.running r hr
    split
    · next hName =>
      subst hName
      have hNoted := faithful_noteErased (h.known r hr) hFaithful callback
      have hAhead : (s.off r.2.name callback).ahead r.1
          (noteErased ((s.events r.2.name).filter (·.callback = callback)) r.2) =
          ((s.events r.2.name).filter (·.callback ≠ callback)).filter (fun n => r.1.id < n.id) := by
        rw [ahead, hEvents, noteErased, if_pos rfl]
      rw [hAhead]
      exact hNoted
    · next hName =>
      have hAhead : (s.off name callback).ahead r.1 r.2 = s.ahead r.1 r.2 := by
        rw [ahead, hEvents, if_neg hName, ahead]
      rw [hAhead]
      exact hFaithful

theorem next_eq (hServed : Served s) (op : Op ν κ) : s.next op = s.act op := by
  rw [State.next, hServed.found, if_neg Bool.false_ne_true]

theorem next_good {op : Op ν κ} (h : Good s) (hServed : Served s) (hCareful : Careful s op) :
    Good (s.next op) ∧ Served (s.next op) := by
  rw [next_eq hServed]
  cases op with
  | on name callback => exact h.on hServed name callback
  | off name callback => exact h.off hServed name callback
  | trigger name => exact h.trigger hServed name
  | ret => exact h.ret hServed hCareful

/-- An iterator on an erased node is lost. -/
theorem careful_of_found {op : Op ν κ} (hServed : Served s) (hNext : (s.next op).lost = false) :
    Careful s op := by
  rw [next_eq hServed] at hNext
  cases op with
  | ret =>
    intro r hHead
    rw [act, State.ret] at hNext
    cases hCalls : s.calls with
    | nil =>
      rw [hCalls] at hHead
      cases hHead
    | cons r' calls =>
      rw [hCalls] at hHead hNext
      obtain rfl := Option.some.inj hHead
      by_contra hGone
      dsimp only at hNext
      rw [if_neg hGone] at hNext
      cases hNext
  | _ => trivial

/-! ## Every run -/

omit [DecidableEq ν] [DecidableEq κ] in
theorem start_good : Good (start ν κ) :=
  ⟨fun _ => .nil, fun _ _ hn => (by cases hn), fun _ hr => (by cases hr)⟩

omit [DecidableEq ν] in
theorem start_served : Served (start ν κ) :=
  ⟨rfl, fun _ hc => (by cases hc), fun _ hr => (by cases hr)⟩

/-- Over every sequence of registrations, removals and triggers, made by the program or by callbacks that
run: in every state every trigger has invoked what it should, and no iterator is lost,
exactly if no callback is removed from the list of its event while it runs. -/
theorem triggers_always_iff (ops : List (Op ν κ)) :
    Transition.Always next Served (start ν κ) ops ↔
      Transition.Each next Careful (start ν κ) ops := by
  have hLegal : Transition.Each next (fun _ _ => True) (start ν κ) ops :=
    Transition.each_of_forall (fun _ _ => trivial) _ _
  refine Transition.always_iff (I := Good) ?_ ?_ start_served start_good hLegal
  · intro s op hServed hGood _
    exact ⟨fun hNext => careful_of_found hServed hNext.found,
      fun hCareful => (next_good hGood hServed hCareful).2⟩
  · intro s op hServed hGood _ hNext
    exact (next_good hGood hServed (careful_of_found hServed hNext.found)).1

/-- The first callback removes the second one and adds a third. -/
theorem triggers_edit : Transition.Always next Served (start Nat Nat)
    [.on 0 (some 1), .on 0 (some 2), .trigger 0, .off 0 (some 2), .on 0 (some 3), .ret, .ret] := by
  refine (triggers_always_iff _).mpr
    ⟨trivial, trivial, trivial, trivial, trivial, ?_, ?_, trivial⟩
  · intro r hHead
    obtain rfl := Option.some.inj hHead
    decide
  · intro r hHead
    obtain rfl := Option.some.inj hHead
    decide

/-- A callback that removes itself loses the iterator. -/
theorem triggers_lose : ¬ Transition.Always next Served (start Nat Nat)
    [.on 0 (some 1), .on 0 (some 2), .trigger 0, .off 0 (some 1), .ret] := by
  intro h
  exact absurd h.2.2.2.2.2.found (by decide)

end State

end RetroConfig.EventManager
