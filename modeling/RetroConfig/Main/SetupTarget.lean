import RetroConfig.Main.Collection

/-!
# The handler that saves a collection

`Context::setupTarget` (`main/Context.cpp`) connects a handler to `dataChanged` that saves the whole
list of the collection by `DataItem::toJSON` after every change. `toJSON` takes each element for
a `DataItem` and reads its texts without a test, so an element that is none ends the program.

`Collection::setDataAt` fills the places between the old data and a larger index with null.
`saves_total_iff` says that the handler is safe in every run exactly if this never happens, or
the context saves nothing.
-/

namespace RetroConfig.Target

/-- `Context::ContextType`. -/
inductive ContextType where
  | project
  | data
  | search
  | setting
  deriving DecidableEq

/-- The context behind the handler: its type and the info data of its target. -/
structure Context where
  type : ContextType
  infoData : Value

/-- `toJSON` dereferences a null pointer. -/
inductive Fault where
  | nullItem

/-- `Ref<DataItem>(const Variant &)`: null for anything that is no `DataItem`. -/
def asItem : Value → Option Nat
  | .leaf (.item a) => some a
  | _ => none

/-- The loop of `DataItem::toJSON`, as far as the items go whose texts it reads. -/
def toJSON : List Value → Except Fault (List Nat)
  | [] => pure []
  | v :: vs =>
    match asItem v with
    | none => throw .nullItem
    | some a => do
      let items ← toJSON vs
      pure (a :: items)

/-- `Context::save`: the items that are written, if any are. -/
def save (ctx : Context) (arr : List Value) : Except Fault (Option (List Nat)) :=
  match ctx.type with
  | .project => some <$> toJSON arr
  | .data =>
    match asItem ctx.infoData with
    | some _ => some <$> toJSON arr
    | none => pure none
  | _ => pure none

/-- The handler of `dataChanged`. -/
def onDataChanged (ctx : Context) (c : Collection) : Notification → Except Fault (Option (List Nat))
  | .dataChanged type _ _ =>
    if type ≠ .append ∧ 0 < c.data.length then save ctx c.data else pure none
  | _ => pure none

/-- A change of the data, with the handler that it calls. -/
def next (ctx : Context) (c : Collection) (op : Collection.Change) : Except Fault Collection := do
  let (c', notification) := c.change op
  let _ ← onDataChanged ctx c' notification
  pure c'

/-! ## Runs -/

/-- The values are `DataItem`s. -/
def Items (vs : List Value) : Prop := ∀ v ∈ vs, ∃ a, v = .leaf (.item a)

/-- The arguments of a change are `DataItem`s. -/
def ItemsOnly : Collection.Change → Prop
  | .setData array => Items array
  | .appendData array => Items array
  | .setDataAt var _ => ∃ a, var = .leaf (.item a)

/-- The context saves its list at all: a project, or data with an item behind them. -/
def Saves (ctx : Context) : Prop :=
  ctx.type = .project ∨ ctx.type = .data ∧ ∃ a, asItem ctx.infoData = some a

/-- No change puts an item beyond the end of the data, which are `n` long at first. -/
def NoGap : Nat → List Collection.Change → Prop
  | _, [] => True
  | _, .setData array :: ops => NoGap array.length ops
  | n, .appendData array :: ops => NoGap (n + array.length) ops
  | n, .setDataAt _ idx :: ops => idx ≤ n ∧ NoGap (max n (idx + 1)) ops

theorem toJSON_total_iff (vs : List Value) : (∃ items, toJSON vs = .ok items) ↔ Items vs := by
  induction vs with
  | nil => exact iff_of_true ⟨[], rfl⟩ fun v hv => by cases hv
  | cons v vs ih =>
    have hCons : Items (v :: vs) ↔ (∃ a, v = .leaf (.item a)) ∧ Items vs := List.forall_mem_cons
    rw [hCons, ← ih, toJSON]
    cases hItem : asItem v with
    | none =>
      refine iff_of_false ?_ ?_
      · rintro ⟨items, h⟩
        cases h
      · rintro ⟨⟨a, rfl⟩, -⟩
        cases hItem
    | some a =>
      have hv : v = .leaf (.item a) := by
        match v, hItem with
        | .leaf (.item _), rfl => rfl
      constructor
      · rintro ⟨items, h⟩
        obtain ⟨rest, hRest, -⟩ := Transition.bind_eq_ok h
        exact ⟨⟨a, hv⟩, rest, hRest⟩
      · rintro ⟨-, rest, hRest⟩
        exact ⟨a :: rest, by dsimp only; rw [hRest]; rfl⟩

/-- The handler is safe exactly if nothing is saved or everything that is saved is an item. -/
theorem onDataChanged_total_iff (ctx : Context) {c : Collection} {type : ChangeType}
    (hType : type ≠ .append) (array : List Value) (idx : Nat) :
    (∃ saved, onDataChanged ctx c (.dataChanged type array idx) = .ok saved) ↔
      (Saves ctx → Items c.data) := by
  have hMap : (∃ saved, (some <$> toJSON c.data : Except Fault (Option (List Nat))) = .ok saved) ↔
      Items c.data := by
    rw [← toJSON_total_iff]
    cases toJSON c.data with
    | error e => exact iff_of_false (fun ⟨_, h⟩ => by cases h) (fun ⟨_, h⟩ => by cases h)
    | ok items => exact iff_of_true ⟨_, rfl⟩ ⟨_, rfl⟩
  by_cases hLength : 0 < c.data.length
  · rw [onDataChanged, if_pos ⟨hType, hLength⟩, save]
    cases hCtx : ctx.type with
    | project =>
      have hSaves : Saves ctx := Or.inl hCtx
      exact hMap.trans ⟨fun h _ => h, fun h => h hSaves⟩
    | data =>
      cases hItem : asItem ctx.infoData with
      | some a =>
        have hSaves : Saves ctx := Or.inr ⟨hCtx, a, hItem⟩
        exact hMap.trans ⟨fun h _ => h, fun h => h hSaves⟩
      | none =>
        refine iff_of_true ⟨none, rfl⟩ ?_
        rintro (h | ⟨-, a, h⟩)
        · rw [hCtx] at h
          cases h
        · rw [hItem] at h
          cases h
    | search =>
      refine iff_of_true ⟨none, rfl⟩ ?_
      rintro (h | ⟨h, -⟩) <;> rw [hCtx] at h <;> cases h
    | setting =>
      refine iff_of_true ⟨none, rfl⟩ ?_
      rintro (h | ⟨h, -⟩) <;> rw [hCtx] at h <;> cases h
  · rw [onDataChanged, if_neg fun h => hLength h.2]
    have hNil : c.data = [] := List.length_eq_zero_iff.mp (by omega)
    exact iff_of_true ⟨none, rfl⟩ fun _ v hv => by rw [hNil] at hv; cases hv

/-! ## One change -/

theorem items_append {xs ys : List Value} : Items (xs ++ ys) ↔ Items xs ∧ Items ys :=
  List.forall_mem_append

/-- The data after `setDataAt` are items exactly if it leaves no gap. -/
theorem setDataAt_items_iff {c : Collection} (hItems : Items c.data) (a idx : Nat) :
    Items (c.setDataAt (.leaf (.item a)) idx).1.data ↔ idx ≤ c.data.length := by
  constructor
  · intro hAfter
    by_contra hIdx
    -- the first new place is not the one that is written
    have hNull : (c.setDataAt (.leaf (.item a)) idx).1.data[c.data.length]? = some Value.null := by
      have hSize : idx + 1 - c.data.length = (idx - c.data.length) + 1 := by omega
      unfold Collection.setDataAt Collection.resize
      dsimp only
      rw [if_pos (by omega), List.getElem?_set_ne (by omega), List.take_of_length_le (by omega),
        List.getElem?_append_right le_rfl, hSize, Nat.sub_self, List.replicate_succ]
      rfl
    obtain ⟨b, hb⟩ := hAfter _ (List.mem_of_getElem? hNull)
    cases hb
  · intro hIdx v hv
    rw [Collection.setDataAt_data hIdx] at hv
    by_cases hLt : idx < c.data.length
    · rw [if_pos hLt] at hv
      obtain hOld | rfl := List.mem_or_eq_of_mem_set hv
      · exact hItems v hOld
      · exact ⟨a, rfl⟩
    · rw [if_neg hLt] at hv
      obtain hOld | hNew := List.mem_append.mp hv
      · exact hItems v hOld
      · exact ⟨a, List.mem_singleton.mp hNew⟩

theorem setDataAt_length (c : Collection) (var : Value) (idx : Nat) :
    (c.setDataAt var idx).1.data.length = max c.data.length (idx + 1) := by
  unfold Collection.setDataAt Collection.resize
  dsimp only
  rw [List.length_set]
  by_cases hIdx : c.data.length ≤ idx
  · rw [if_pos hIdx, List.length_append, List.length_take, List.length_replicate]
    omega
  · rw [if_neg hIdx]
    omega

/-- A change goes through exactly if nothing is saved or the new data are items. -/
theorem next_total_iff (ctx : Context) (c : Collection) (op : Collection.Change) :
    (∃ c', next ctx c op = .ok c') ↔ (Saves ctx → Items (c.change op).1.data) := by
  have hKind : ∃ type array idx, (c.change op).2 = .dataChanged type array idx ∧ type ≠ .append := by
    cases op with
    | setData array => exact ⟨.reload, array, 0, rfl, by decide⟩
    | appendData array => exact ⟨.reload, array, c.data.length, rfl, by decide⟩
    | setDataAt var idx => exact ⟨.changed, Collection.arrayOf var, idx, rfl, by decide⟩
  obtain ⟨type, array, idx, hNotification, hType⟩ := hKind
  rw [← onDataChanged_total_iff ctx hType array idx, next, ← hNotification]
  dsimp only
  cases onDataChanged ctx (c.change op).1 (c.change op).2 with
  | error e => exact iff_of_false (fun ⟨_, h⟩ => by cases h) (fun ⟨_, h⟩ => by cases h)
  | ok saved => exact iff_of_true ⟨_, rfl⟩ ⟨_, rfl⟩

theorem next_eq_ok {ctx : Context} {c c' : Collection} {op : Collection.Change}
    (h : next ctx c op = .ok c') : c' = (c.change op).1 := by
  obtain ⟨saved, -, hEnd⟩ := Transition.bind_eq_ok h
  exact (Except.ok.inj hEnd).symm

/-! ## Runs of changes -/

/-- A context that saves nothing gets through every run. -/
theorem run_of_not_saves {ctx : Context} (hNot : ¬ Saves ctx) (c : Collection)
    (ops : List Collection.Change) : ∃ c', Transition.run (next ctx) c ops = .ok c' := by
  have hStep : ∀ c op, True → ∃ c', next ctx c op = .ok c' ∧ True := by
    intro c op _
    obtain ⟨c', h⟩ := (next_total_iff ctx c op).mpr fun hSaves => absurd hSaves hNot
    exact ⟨c', h, trivial⟩
  obtain ⟨c', h, -⟩ := Transition.run_total (I := fun _ => True) hStep (s := c) trivial ops
  exact ⟨c', h⟩

/-- The items after the first change, and the changes that may follow. -/
theorem change_items_iff {c : Collection} (hItems : Items c.data) {op : Collection.Change}
    (hOp : ItemsOnly op) (ops : List Collection.Change) :
    NoGap c.data.length (op :: ops) ↔
      Items (c.change op).1.data ∧ NoGap (c.change op).1.data.length ops := by
  cases op with
  | setData array => exact ⟨fun h => ⟨hOp, h⟩, fun h => h.2⟩
  | appendData array =>
    have hLength : (c.change (.appendData array)).1.data.length = c.data.length + array.length :=
      List.length_append
    rw [hLength]
    exact ⟨fun h => ⟨items_append.mpr ⟨hItems, hOp⟩, h⟩, fun h => h.2⟩
  | setDataAt var idx =>
    obtain ⟨a, rfl⟩ := hOp
    have hLength := setDataAt_length c (.leaf (.item a)) idx
    have hAfter := setDataAt_items_iff hItems a idx
    rw [Collection.change, hLength, hAfter]
    rfl

theorem run_of_saves {ctx : Context} (hSaves : Saves ctx) {c : Collection} (hItems : Items c.data)
    {ops : List Collection.Change} (hOps : ∀ op ∈ ops, ItemsOnly op) :
    (∃ c', Transition.run (next ctx) c ops = .ok c') ↔ NoGap c.data.length ops := by
  induction ops generalizing c with
  | nil => exact iff_of_true ⟨c, rfl⟩ trivial
  | cons op ops ih =>
    obtain ⟨hOp, hRest⟩ := List.forall_mem_cons.mp hOps
    rw [change_items_iff hItems hOp, Transition.run_cons]
    constructor
    · rintro ⟨c', hRun⟩
      obtain ⟨d, hd, hRun⟩ := Transition.bind_eq_ok hRun
      have hAfter := (next_total_iff ctx c op).mp ⟨d, hd⟩ hSaves
      obtain rfl := next_eq_ok hd
      exact ⟨hAfter, (ih hAfter hRest).mp ⟨c', hRun⟩⟩
    · rintro ⟨hAfter, hNoGap⟩
      obtain ⟨d, hd⟩ := (next_total_iff ctx c op).mpr fun _ => hAfter
      obtain rfl := next_eq_ok hd
      rw [hd]
      exact (ih hAfter hRest).mpr hNoGap

/-- In a run of changes by `DataItem`s, from data that are `DataItem`s, the handler never takes
anything else for an item exactly if the context saves nothing or no change leaves a gap. -/
theorem saves_total_iff (ctx : Context) (c : Collection) (ops : List Collection.Change)
    (hItems : Items c.data) (hOps : ∀ op ∈ ops, ItemsOnly op) :
    (∃ c', Transition.run (next ctx) c ops = .ok c') ↔ (Saves ctx → NoGap c.data.length ops) := by
  by_cases hSaves : Saves ctx
  · rw [run_of_saves hSaves hItems hOps]
    exact ⟨fun h _ => h, fun h => h hSaves⟩
  · exact iff_of_true (run_of_not_saves hSaves c ops) fun h => absurd h hSaves

/-- A project page that is set, and changed at its first place and just after its last. -/
theorem saves_total_project :
    ∃ c', Transition.run (next ⟨.project, Value.null⟩) ⟨false, []⟩
      [.setData [.leaf (.item 0)], .setDataAt (.leaf (.item 1)) 0,
        .setDataAt (.leaf (.item 2)) 1] = .ok c' := by
  refine (saves_total_iff _ _ _ ?_ ?_).mpr fun _ => ?_
  · intro v hv
    cases hv
  · simp [ItemsOnly, Items]
  · exact ⟨by decide, by decide, trivial⟩

/-- A project page whose second place is set first. -/
theorem saves_gap :
    (∀ op ∈ [Collection.Change.setDataAt (.leaf (.item 0)) 1], ItemsOnly op) ∧
      Transition.run (next ⟨.project, Value.null⟩) ⟨false, []⟩
        [.setDataAt (.leaf (.item 0)) 1] = .error .nullItem := by
  refine ⟨?_, rfl⟩
  intro op hOp
  obtain rfl := List.mem_singleton.mp hOp
  exact ⟨0, rfl⟩

end RetroConfig.Target
