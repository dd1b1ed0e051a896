import RetroConfig.Core.Reference

/-!
# What a release deletes

When slot `a` lets go of its object, the objects that die are those all of whose holders
let go: `a` itself, and the fields of objects that die (`LetsGo`, `Dies`). These are read
off the heap before the release.

`release_spec` shows that `release` deletes such objects only, that every other slot keeps
its value, and that the counts are again the numbers of holders, provided that the object
that owns `a` does not die. The cascade of destructors is followed with the set `out` of
slots that have let go and the set `dead` of objects whose deletion has begun (`Mid`).
-/

namespace RetroConfig.Reference

namespace Heap

/-- What a slot holds, if the slot lives. -/
def value (h : Heap) (a : Nat) : Option Value := (h.slots a).map (·.value)

def owner (h : Heap) (a : Nat) : Option Nat := (h.slots a).bind (·.owner)

def Live (h : Heap) (o : Nat) : Prop := ∃ count fields, h.objects o = .live count fields

/-- The number of live slots that hold an object. -/
def holders (h : Heap) (o : Nat) : Nat :=
  ((Finset.range h.slotCount).filter (fun c => h.value c = some (.object o))).card

@[simp] theorem setObject_slots (h : Heap) (o : Nat) (x : Life) :
    (h.setObject o x).slots = h.slots := rfl

@[simp] theorem setSlot_objects (h : Heap) (a : Nat) (s : Option Slot) :
    (h.setSlot a s).objects = h.objects := rfl

@[simp] theorem setSlot_slotCount (h : Heap) (a : Nat) (s : Option Slot) :
    (h.setSlot a s).slotCount = h.slotCount := rfl

@[simp] theorem setSlot_objectCount (h : Heap) (a : Nat) (s : Option Slot) :
    (h.setSlot a s).objectCount = h.objectCount := rfl

theorem setObject_objects (h : Heap) (o p : Nat) (x : Life) :
    (h.setObject o x).objects p = if p = o then x else h.objects p :=
  Function.update_apply h.objects o x p

theorem setSlot_slots (h : Heap) (a c : Nat) (s : Option Slot) :
    (h.setSlot a s).slots c = if c = a then s else h.slots c :=
  Function.update_apply h.slots a s c

theorem not_live {h : Heap} {o : Nat} (ho : ∀ count fields, h.objects o ≠ .live count fields) :
    ¬ h.Live o := fun hLive => by
  obtain ⟨count, fields, hLife⟩ := hLive
  exact ho count fields hLife

theorem slot_ok {h : Heap} {a : Nat} {s : Slot} (hs : h.slots a = some s) : h.slot a = .ok s := by
  simp [slot, hs]

theorem setValue_ok {h : Heap} {a : Nat} {s : Slot} (hs : h.slots a = some s) (v : Value) :
    h.setValue a v = .ok (h.setSlot a (some { s with value := v })) := by
  simp [setValue, slot_ok hs]

theorem exists_slot_of_owner {h : Heap} {a p : Nat} (hOwner : h.owner a = some p) :
    ∃ s, h.slots a = some s ∧ s.owner = some p := Option.bind_eq_some_iff.mp hOwner

theorem exists_slot_of_value {h : Heap} {a : Nat} {v : Value} (hValue : h.value a = some v) :
    ∃ s, h.slots a = some s ∧ s.value = v := Option.map_eq_some_iff.mp hValue

end Heap

/-- The invariant of a heap between two operations. -/
structure Good (h : Heap) : Prop where
  objectsEnd : ∀ o, h.objectCount ≤ o → h.objects o = .unborn
  slotsEnd : ∀ a, h.slotCount ≤ a → h.slots a = none
  count : ∀ o count fields, h.objects o = .live count fields → count = h.holders o
  target : ∀ a o, h.value a = some (.object o) → h.Live o
  owner : ∀ a p, h.owner a = some p → ∃ count fields, h.objects p = .live count fields ∧ a ∈ fields
  fields : ∀ p count fields, h.objects p = .live count fields →
    fields.Nodup ∧ ∀ a ∈ fields, h.owner a = some p
  kind : ∀ a s, h.slots a = some s → s.kind.takes s.value = s.value

/-- The slots that let go when `a` does. -/
inductive LetsGo (h : Heap) (a : Nat) : Nat → Prop
  | self : LetsGo h a a
  | field {b p : Nat} (hOwner : h.owner b = some p) (hHeld : ∃ c, h.value c = some (.object p))
      (hAll : ∀ c, h.value c = some (.object p) → LetsGo h a c) : LetsGo h a b

/-- The object is held, and by slots only that let go when `a` does. -/
def Dies (h : Heap) (a p : Nat) : Prop :=
  (∃ c, h.value c = some (.object p)) ∧ ∀ c, h.value c = some (.object p) → LetsGo h a c

/-- The object that owns `a` is not deleted when `a` lets go. -/
def OwnerStays (h : Heap) (a : Nat) : Prop := ∀ p, h.owner a = some p → ¬ Dies h a p

/-! ## Following the cascade -/

/-- The holders of an object in `h₀` that have not let go. -/
def outside (h₀ : Heap) (out : Finset Nat) (o : Nat) : Nat :=
  ((Finset.range h₀.slotCount).filter (fun c => c ∉ out ∧ h₀.value c = some (.object o))).card

/-- The objects whose deletion has not begun. -/
def aliveCount (h₀ : Heap) (dead : Finset Nat) : Nat :=
  ((Finset.range h₀.objectCount).filter (fun o => o ∉ dead)).card

/-- A heap in the middle of a release that began in `h₀` with slot `a₀`. -/
structure Mid (h₀ : Heap) (a₀ : Nat) (out dead : Finset Nat) (h : Heap) : Prop where
  objectCount : h.objectCount = h₀.objectCount
  slotCount : h.slotCount = h₀.slotCount
  intact : ∀ c, c ∉ out → h.slots c = h₀.slots c
  gone : ∀ c ∈ out, LetsGo h₀ a₀ c
  outOwner : ∀ c ∈ out, c = a₀ ∨ ∃ p ∈ dead, h₀.owner c = some p
  dies : ∀ o ∈ dead, Dies h₀ a₀ o
  alive : ∀ o count fields, o ∉ dead → h₀.objects o = .live count fields →
    h.objects o = .live (outside h₀ out o) fields
  rest : ∀ o, ¬ h₀.Live o → h.objects o = h₀.objects o
  unheld : ∀ o ∈ dead, outside h₀ out o = 0
  zero : ∀ o, o ∉ dead → outside h₀ out o = 0 → h₀.holders o = 0
  finished : ∀ p ∈ dead, h.objects p = .destroyed → ∀ c, h₀.owner c = some p → c ∈ out

/-- What a part of the cascade that destroys the slots of `todo` and deletes objects may
change. -/
structure Advances (h₀ : Heap) (todo : List Nat) (out dead out' dead' : Finset Nat)
    (h h' : Heap) : Prop where
  out_sub : out ⊆ out'
  dead_sub : dead ⊆ dead'
  outNew : ∀ c ∈ out', c ∈ out ∨ c ∈ todo ∨ ∃ p ∈ dead', p ∉ dead ∧ h₀.owner c = some p
  outKept : ∀ c ∈ out, h'.slots c = h.slots c
  outErased : ∀ c ∈ out', c ∉ out → h'.slots c = none
  deadKept : ∀ p ∈ dead, h'.objects p = h.objects p
  deadNew : ∀ p ∈ dead', p ∉ dead → h'.objects p = .destroyed

theorem Advances.refl (h₀ : Heap) (out dead : Finset Nat) (h : Heap) :
    Advances h₀ [] out dead out dead h h :=
  ⟨fun _ => id, fun _ => id, fun _ hc => Or.inl hc, fun _ _ => rfl,
    fun _ hc hc' => absurd hc hc', fun _ _ => rfl, fun _ hp hp' => absurd hp hp'⟩

theorem Advances.trans {h₀ : Heap} {todo todo' : List Nat}
    {out dead out' dead' out'' dead'' : Finset Nat} {h h' h'' : Heap}
    (h1 : Advances h₀ todo out dead out' dead' h h')
    (h2 : Advances h₀ todo' out' dead' out'' dead'' h' h'') :
    Advances h₀ (todo ++ todo') out dead out'' dead'' h h'' := by
  refine ⟨h1.out_sub.trans h2.out_sub, h1.dead_sub.trans h2.dead_sub, ?_, ?_, ?_, ?_, ?_⟩
  · intro c hc
    rcases h2.outNew c hc with hc | hc | ⟨p, hp, hNew, hOwner⟩
    · rcases h1.outNew c hc with hc | hc | ⟨p, hp, hNew, hOwner⟩
      · exact Or.inl hc
      · exact Or.inr (Or.inl (List.mem_append_left _ hc))
      · exact Or.inr (Or.inr ⟨p, h2.dead_sub hp, hNew, hOwner⟩)
    · exact Or.inr (Or.inl (List.mem_append_right _ hc))
    · exact Or.inr (Or.inr ⟨p, hp, fun h => hNew (h1.dead_sub h), hOwner⟩)
  · intro c hc
    rw [h2.outKept c (h1.out_sub hc), h1.outKept c hc]
  · intro c hc hOut
    by_cases hc' : c ∈ out'
    · rw [h2.outKept c hc', h1.outErased c hc' hOut]
    · exact h2.outErased c hc hc'
  · intro p hp
    rw [h2.deadKept p (h1.dead_sub hp), h1.deadKept p hp]
  · intro p hp hDead
    by_cases hp' : p ∈ dead'
    · rw [h2.deadKept p hp', h1.deadNew p hp' hDead]
    · exact h2.deadNew p hp hp'

/-- A holder that lets go is one holder less. -/
theorem outside_insert {h₀ : Heap} (hGood : Good h₀) {out : Finset Nat} {b o : Nat} (hb : b ∉ out)
    (hValue : h₀.value b = some (.object o)) :
    outside h₀ out o = outside h₀ (insert b out) o + 1 := by
  have hRange : b < h₀.slotCount := by
    by_contra hLe
    rw [Heap.value, hGood.slotsEnd b (by omega)] at hValue
    cases hValue
  have hMem : b ∈ (Finset.range h₀.slotCount).filter
      (fun c => c ∉ out ∧ h₀.value c = some (.object o)) :=
    Finset.mem_filter.mpr ⟨Finset.mem_range.mpr hRange, hb, hValue⟩
  have hErase : (Finset.range h₀.slotCount).filter
      (fun c => c ∉ insert b out ∧ h₀.value c = some (.object o)) =
      ((Finset.range h₀.slotCount).filter
        (fun c => c ∉ out ∧ h₀.value c = some (.object o))).erase b := by
    ext c
    simp only [Finset.mem_filter, Finset.mem_erase, Finset.mem_insert, not_or]
    tauto
  unfold outside
  rw [hErase]
  exact (Finset.card_erase_add_one hMem).symm

theorem outside_insert_of_ne {h₀ : Heap} {out : Finset Nat} {b o : Nat}
    (hValue : h₀.value b ≠ some (.object o)) :
    outside h₀ (insert b out) o = outside h₀ out o := by
  unfold outside
  congr 1
  ext c
  simp only [Finset.mem_filter, Finset.mem_insert, not_or]
  constructor
  · rintro ⟨hc, ⟨-, hOut⟩, hv⟩
    exact ⟨hc, hOut, hv⟩
  · rintro ⟨hc, hOut, hv⟩
    refine ⟨hc, ⟨?_, hOut⟩, hv⟩
    rintro rfl
    exact hValue hv

theorem aliveCount_insert {h₀ : Heap} {dead : Finset Nat} {o : Nat} (ho : o < h₀.objectCount)
    (hDead : o ∉ dead) : aliveCount h₀ dead = aliveCount h₀ (insert o dead) + 1 := by
  have hMem : o ∈ (Finset.range h₀.objectCount).filter (fun o => o ∉ dead) :=
    Finset.mem_filter.mpr ⟨Finset.mem_range.mpr ho, hDead⟩
  have hErase : (Finset.range h₀.objectCount).filter (fun p => p ∉ insert o dead) =
      ((Finset.range h₀.objectCount).filter (fun p => p ∉ dead)).erase o := by
    ext c
    simp only [Finset.mem_filter, Finset.mem_erase, Finset.mem_insert, not_or]
    tauto
  unfold aliveCount
  rw [hErase]
  exact (Finset.card_erase_add_one hMem).symm

theorem aliveCount_le {h₀ : Heap} {dead dead' : Finset Nat} (h : dead ⊆ dead') :
    aliveCount h₀ dead' ≤ aliveCount h₀ dead := by
  apply Finset.card_le_card
  intro o ho
  rw [Finset.mem_filter] at ho ⊢
  exact ⟨ho.1, fun hDead => ho.2 (h hDead)⟩

/-! ## The cascade -/

section Cascade

variable {h₀ : Heap} {a₀ : Nat}

/-- The slot `b` lets go of something that is not counted. -/
theorem Mid.insert_plain {out dead : Finset Nat} {h h' : Heap} {b : Nat} (hMid : Mid h₀ a₀ out dead h)
    (hPlain : ∀ o, h₀.value b ≠ some (.object o)) (hGo : LetsGo h₀ a₀ b)
    (hOwner : b = a₀ ∨ ∃ p ∈ dead, h₀.owner b = some p) (hObjects : h'.objects = h.objects)
    (hObjectCount : h'.objectCount = h.objectCount) (hSlotCount : h'.slotCount = h.slotCount)
    (hSlots : ∀ c, c ≠ b → h'.slots c = h.slots c) : Mid h₀ a₀ (insert b out) dead h' where
  objectCount := hObjectCount.trans hMid.objectCount
  slotCount := hSlotCount.trans hMid.slotCount
  intact c hc := by
    rw [Finset.mem_insert, not_or] at hc
    rw [hSlots c hc.1, hMid.intact c hc.2]
  gone c hc := by
    rcases Finset.mem_insert.mp hc with rfl | hc
    · exact hGo
    · exact hMid.gone c hc
  outOwner c hc := by
    rcases Finset.mem_insert.mp hc with rfl | hc
    · exact hOwner
    · exact hMid.outOwner c hc
  dies := hMid.dies
  alive o count fields hDead ho := by
    rw [hObjects, outside_insert_of_ne (hPlain o)]
    exact hMid.alive o count fields hDead ho
  rest o ho := by
    rw [hObjects]
    exact hMid.rest o ho
  unheld o ho := by
    rw [outside_insert_of_ne (hPlain o)]
    exact hMid.unheld o ho
  zero o ho hZero := by
    rw [outside_insert_of_ne (hPlain o)] at hZero
    exact hMid.zero o ho hZero
  finished p hp hDone c hc := by
    rw [hObjects] at hDone
    exact Finset.mem_insert_of_mem (hMid.finished p hp hDone c hc)

/-- Slots that have let go may be changed or erased. -/
theorem Mid.setSlot {out dead : Finset Nat} {h : Heap} {b : Nat} (hMid : Mid h₀ a₀ out dead h)
    (hb : b ∈ out) (s : Option Slot) : Mid h₀ a₀ out dead (h.setSlot b s) := by
  refine ⟨hMid.objectCount, hMid.slotCount, ?_, hMid.gone, hMid.outOwner, hMid.dies, hMid.alive,
    hMid.rest, hMid.unheld, hMid.zero, hMid.finished⟩
  intro c hc
  have hcb : c ≠ b := by
    rintro rfl
    exact hc hb
  rw [Heap.setSlot_slots, if_neg hcb]
  exact hMid.intact c hc

/-- What `letGo` with at most `n` nested deletions does to an object that slot `b` held. -/
def LetGoSpec (h₀ : Heap) (a₀ n : Nat) : Prop :=
  ∀ h out dead b o, Mid h₀ a₀ out dead h → aliveCount h₀ dead < n → b ∉ out →
    h₀.value b = some (.object o) → LetsGo h₀ a₀ b →
    (b = a₀ ∨ ∃ p ∈ dead, h₀.owner b = some p) →
    ∃ deleted h' out' dead', letGo n o h = .ok (deleted, h') ∧ Mid h₀ a₀ out' dead' h' ∧
      Advances h₀ [] (insert b out) dead out' dead' h h'

theorem setSlot_same {h : Heap} {a : Nat} {s : Slot} (hs : h.slots a = some s) :
    h.setSlot a (some s) = h := by
  have hUpdate : Function.update h.slots a (some s) = h.slots := by
    rw [← hs]
    exact Function.update_eq_self a h.slots
  simp only [Heap.setSlot, hUpdate]

/-- After an object was let go, the slot holds null or, as a `Reference`, what it held. -/
theorem releaseSlot_object {go : Nat → Heap → Except Fault (Bool × Heap)} {a o : Nat} {h h₁ : Heap}
    {s : Slot} {deleted : Bool} (hs : h.slots a = some s) (ho : s.value = .object o)
    (hRun : go o h = .ok (deleted, h₁)) (hs₁ : h₁.slots a = some s) :
    ∃ v, releaseSlot go a h = .ok (h₁.setSlot a (some { s with value := v })) := by
  obtain ⟨kind, owner, value⟩ := s
  obtain rfl : value = .object o := ho
  cases kind with
  | variant =>
    refine ⟨.null, ?_⟩
    simp only [releaseSlot, Heap.slot_ok hs, Transition.ok_bind, hRun]
    exact Heap.setValue_ok hs₁ .null
  | reference =>
    cases deleted with
    | true =>
      refine ⟨.null, ?_⟩
      simp only [releaseSlot, Heap.slot_ok hs, Transition.ok_bind, hRun, if_true]
      exact Heap.setValue_ok hs₁ .null
    | false =>
      refine ⟨.object o, ?_⟩
      rw [setSlot_same hs₁]
      simp only [releaseSlot, Heap.slot_ok hs, Transition.ok_bind, hRun]
      rfl

theorem releaseSlot_plain (go : Nat → Heap → Except Fault (Bool × Heap)) {a : Nat} {h : Heap}
    {s : Slot} (hs : h.slots a = some s) (hPlain : ∀ o, s.value ≠ .object o) :
    ∃ v, releaseSlot go a h = .ok (h.setSlot a (some { s with value := v })) := by
  obtain ⟨kind, owner, value⟩ := s
  cases kind with
  | variant =>
    refine ⟨.null, ?_⟩
    rw [releaseSlot, Heap.slot_ok hs, Transition.ok_bind]
    cases value with
    | object o => exact absurd rfl (hPlain o)
    | null => exact Heap.setValue_ok hs .null
    | plain x => exact Heap.setValue_ok hs .null
  | reference =>
    refine ⟨value, ?_⟩
    rw [releaseSlot, Heap.slot_ok hs, Transition.ok_bind, setSlot_same hs]
    cases value with
    | object o => exact absurd rfl (hPlain o)
    | null => rfl
    | plain x => rfl

/-- A release, of `a₀` or of a field of an object that is being deleted. The slot itself
stays, whatever it holds then. -/
theorem releaseSlot_spec {n : Nat} (ih : LetGoSpec h₀ a₀ n) {h : Heap} {out dead : Finset Nat}
    {b : Nat} {s : Slot} (hMid : Mid h₀ a₀ out dead h) (hFuel : aliveCount h₀ dead < n)
    (hb : b ∉ out) (hs : h₀.slots b = some s) (hGo : LetsGo h₀ a₀ b)
    (hOwner : b = a₀ ∨ ∃ p ∈ dead, h₀.owner b = some p) :
    ∃ h' out' dead' v, releaseSlot (letGo n) b h = .ok h' ∧ Mid h₀ a₀ out' dead' h' ∧
      h'.slots b = some { s with value := v } ∧ b ∈ out' ∧
      Advances h₀ [] (insert b out) dead out' dead' (h.setSlot b (h'.slots b)) h' := by
  have hsh : h.slots b = some s := (hMid.intact b hb).trans hs
  have hValue : h₀.value b = some s.value := by simp [Heap.value, hs]
  -- After the slot has let go, its own value may be set to null.
  have hNull : ∀ (h₁ : Heap) (out' dead' : Finset Nat), Mid h₀ a₀ out' dead' h₁ →
      Advances h₀ [] (insert b out) dead out' dead' h h₁ → ∀ v,
      Mid h₀ a₀ out' dead' (h₁.setSlot b (some { s with value := v })) ∧
      Advances h₀ [] (insert b out) dead out' dead' (h.setSlot b (some { s with value := v }))
        (h₁.setSlot b (some { s with value := v })) := by
    intro h₁ out' dead' hMid₁ hAdv v
    have hb' : b ∈ out' := hAdv.out_sub (Finset.mem_insert_self b out)
    refine ⟨hMid₁.setSlot hb' _, hAdv.out_sub, hAdv.dead_sub, hAdv.outNew, ?_, ?_, hAdv.deadKept,
      hAdv.deadNew⟩
    · intro c hc
      rw [Heap.setSlot_slots, Heap.setSlot_slots]
      split
      · rfl
      · exact hAdv.outKept c hc
    · intro c hc hOut
      have hcb : c ≠ b := by
        rintro rfl
        exact hOut (Finset.mem_insert_self c out)
      rw [Heap.setSlot_slots, if_neg hcb]
      exact hAdv.outErased c hc hOut
  -- Both kinds of slots end with some value.
  suffices hEnd : ∃ h₁ out' dead' v, releaseSlot (letGo n) b h =
        .ok (h₁.setSlot b (some { s with value := v })) ∧ Mid h₀ a₀ out' dead' h₁ ∧
      Advances h₀ [] (insert b out) dead out' dead' h h₁ by
    obtain ⟨h₁, out', dead', v, hRun, hMid₁, hAdv⟩ := hEnd
    obtain ⟨hMid₂, hAdv₂⟩ := hNull h₁ out' dead' hMid₁ hAdv v
    have hSlot : (h₁.setSlot b (some { s with value := v })).slots b = some { s with value := v } :=
      (Heap.setSlot_slots h₁ b b _).trans (if_pos rfl)
    exact ⟨_, out', dead', v, hRun, hMid₂, hSlot, hAdv.out_sub (Finset.mem_insert_self b out),
      by rw [hSlot]; exact hAdv₂⟩
  by_cases hObject : ∃ o, s.value = .object o
  · obtain ⟨o, ho⟩ := hObject
    obtain ⟨deleted, h₁, out', dead', hRun, hMid₁, hAdv⟩ :=
      ih h out dead b o hMid hFuel hb (hValue.trans (congrArg some ho)) hGo hOwner
    have hs₁ : h₁.slots b = some s := (hAdv.outKept b (Finset.mem_insert_self b out)).trans hsh
    obtain ⟨v, hv⟩ := releaseSlot_object hsh ho hRun hs₁
    exact ⟨h₁, out', dead', v, hv, hMid₁, hAdv⟩
  · have hPlain : ∀ o, h₀.value b ≠ some (.object o) := by
      intro o ho
      rw [hValue] at ho
      exact hObject ⟨o, Option.some.inj ho⟩
    obtain ⟨v, hv⟩ := releaseSlot_plain (letGo n) hsh (fun o ho => hObject ⟨o, ho⟩)
    exact ⟨h, insert b out, dead, v, hv,
      hMid.insert_plain hPlain hGo hOwner rfl rfl rfl (fun _ _ => rfl), Advances.refl h₀ _ _ h⟩

/-- The destructor of one field of an object that is being deleted. -/
theorem dropSlot_spec {n : Nat} (ih : LetGoSpec h₀ a₀ n) {h : Heap} {out dead : Finset Nat}
    {b : Nat} {s : Slot} (hMid : Mid h₀ a₀ out dead h) (hFuel : aliveCount h₀ dead < n)
    (hb : b ∉ out) (hs : h₀.slots b = some s) (hGo : LetsGo h₀ a₀ b)
    (hOwner : b = a₀ ∨ ∃ p ∈ dead, h₀.owner b = some p) :
    ∃ h' out' dead', dropSlot (letGo n) b h = .ok h' ∧ Mid h₀ a₀ out' dead' h' ∧ b ∈ out' ∧
      Advances h₀ [b] out dead out' dead' h h' := by
  obtain ⟨h₁, out', dead', v, hRun, hMid₁, hSlot, hbOut, hAdv⟩ :=
    releaseSlot_spec ih hMid hFuel hb hs hGo hOwner
  refine ⟨h₁.setSlot b none, out', dead', by simp [dropSlot, hRun], hMid₁.setSlot hbOut none, hbOut,
    fun c hc => hAdv.out_sub (Finset.mem_insert_of_mem hc), hAdv.dead_sub, ?_, ?_, ?_,
    hAdv.deadKept, hAdv.deadNew⟩
  · intro c hc
    rcases hAdv.outNew c hc with hc | hc | hc
    · rcases Finset.mem_insert.mp hc with rfl | hc
      · exact Or.inr (Or.inl List.mem_cons_self)
      · exact Or.inl hc
    · cases hc
    · exact Or.inr (Or.inr hc)
  · intro c hc
    have hcb : c ≠ b := by
      rintro rfl
      exact hb hc
    rw [Heap.setSlot_slots, if_neg hcb, hAdv.outKept c (Finset.mem_insert_of_mem hc),
      Heap.setSlot_slots, if_neg hcb]
  · intro c hc hOut
    rw [Heap.setSlot_slots]
    split
    · rfl
    · rename_i hcb
      exact hAdv.outErased c hc (by simp [hcb, hOut])

/-- The destructors of the fields, in their order. -/
theorem dropSlots_spec {n : Nat} (ih : LetGoSpec h₀ a₀ n) (l : List Nat) {h : Heap}
    {out dead : Finset Nat} (hMid : Mid h₀ a₀ out dead h) (hFuel : aliveCount h₀ dead < n)
    (hNodup : l.Nodup) (hOut : ∀ c ∈ l, c ∉ out) (hGo : ∀ c ∈ l, LetsGo h₀ a₀ c)
    (hOwner : ∀ c ∈ l, ∃ p ∈ dead, h₀.owner c = some p) :
    ∃ h' out' dead', l.foldlM (fun h a => dropSlot (letGo n) a h) h = .ok h' ∧
      Mid h₀ a₀ out' dead' h' ∧ (∀ c ∈ l, c ∈ out') ∧ Advances h₀ l out dead out' dead' h h' := by
  induction l generalizing h out dead with
  | nil => exact ⟨h, out, dead, rfl, hMid, by simp, Advances.refl h₀ out dead h⟩
  | cons b l ihl =>
    obtain ⟨hbl, hNodup⟩ := List.nodup_cons.mp hNodup
    obtain ⟨p, hp, hbp⟩ := hOwner b List.mem_cons_self
    obtain ⟨s, hs, -⟩ := Heap.exists_slot_of_owner hbp
    obtain ⟨h₁, out₁, dead₁, hRun₁, hMid₁, hb₁, hAdv₁⟩ := dropSlot_spec ih hMid hFuel
      (hOut b List.mem_cons_self) hs (hGo b List.mem_cons_self) (Or.inr ⟨p, hp, hbp⟩)
    have hOut₁ : ∀ c ∈ l, c ∉ out₁ := by
      intro c hc hc₁
      rcases hAdv₁.outNew c hc₁ with hOld | hcb | ⟨q, -, hNew, hcq⟩
      · exact hOut c (List.mem_cons_of_mem _ hc) hOld
      · rw [List.mem_singleton] at hcb
        exact hbl (hcb ▸ hc)
      · obtain ⟨p', hp', hcp'⟩ := hOwner c (List.mem_cons_of_mem _ hc)
        rw [hcp'] at hcq
        cases hcq
        exact hNew hp'
    have hOwner₁ : ∀ c ∈ l, ∃ p ∈ dead₁, h₀.owner c = some p := by
      intro c hc
      obtain ⟨p', hp', hcp'⟩ := hOwner c (List.mem_cons_of_mem _ hc)
      exact ⟨p', hAdv₁.dead_sub hp', hcp'⟩
    obtain ⟨h₂, out₂, dead₂, hRun₂, hMid₂, hl₂, hAdv₂⟩ := ihl hMid₁
      (lt_of_le_of_lt (aliveCount_le hAdv₁.dead_sub) hFuel) hNodup hOut₁
      (fun c hc => hGo c (List.mem_cons_of_mem _ hc)) hOwner₁
    refine ⟨h₂, out₂, dead₂, ?_, hMid₂, ?_, hAdv₁.trans hAdv₂⟩
    · rw [List.foldlM_cons, hRun₁]
      exact hRun₂
    · intro c hc
      rcases List.mem_cons.mp hc with rfl | hc
      · exact hAdv₂.out_sub hb₁
      · exact hl₂ c hc

/-- One holder less, and the object is still held. -/
theorem Mid.decrement {out dead : Finset Nat} {h : Heap} {b o : Nat} {count : Int}
    {fields : List Nat} (hMid : Mid h₀ a₀ out dead h)
    (hValue : h₀.value b = some (.object o)) (hGo : LetsGo h₀ a₀ b)
    (hOwner : b = a₀ ∨ ∃ p ∈ dead, h₀.owner b = some p)
    (ho : h₀.objects o = .live count fields) (dead' : Finset Nat) (hDead' : dead ⊆ dead')
    (hNew : ∀ p ∈ dead', p ∈ dead ∨ p = o) (hDies : ∀ p ∈ dead', Dies h₀ a₀ p)
    (hIn : o ∈ dead' ↔ outside h₀ (insert b out) o = 0) :
    Mid h₀ a₀ (insert b out) dead'
      (h.setObject o (.live (outside h₀ (insert b out) o) fields)) := by
  have hOther : ∀ p, p ≠ o → outside h₀ (insert b out) p = outside h₀ out p := by
    intro p hp
    apply outside_insert_of_ne
    rw [hValue]
    intro hEq
    exact hp (by injection hEq with hEq; injection hEq with hEq; exact hEq.symm)
  have hOld : ∀ p ∈ dead', p ≠ o → p ∈ dead := fun p hp hpo => (hNew p hp).resolve_right hpo
  refine ⟨hMid.objectCount, hMid.slotCount, ?_, ?_, ?_, hDies, ?_, ?_, ?_, ?_, ?_⟩
  · intro c hc
    exact hMid.intact c fun hc' => hc (Finset.mem_insert_of_mem hc')
  · intro c hc
    rcases Finset.mem_insert.mp hc with rfl | hc
    · exact hGo
    · exact hMid.gone c hc
  · intro c hc
    have hcOut : c = a₀ ∨ ∃ p ∈ dead, h₀.owner c = some p := by
      rcases Finset.mem_insert.mp hc with rfl | hc
      · exact hOwner
      · exact hMid.outOwner c hc
    rcases hcOut with hca | ⟨p, hp, hcp⟩
    · exact Or.inl hca
    · exact Or.inr ⟨p, hDead' hp, hcp⟩
  · intro p k f hp hpLive
    rw [Heap.setObject_objects]
    by_cases hpo : p = o
    · subst hpo
      rw [ho] at hpLive
      cases hpLive
      rw [if_pos rfl]
    · rw [if_neg hpo, hOther p hpo]
      exact hMid.alive p k f (fun hp' => hp (hDead' hp')) hpLive
  · intro p hp
    have hpo : p ≠ o := by
      rintro rfl
      exact hp ⟨_, _, ho⟩
    rw [Heap.setObject_objects, if_neg hpo]
    exact hMid.rest p hp
  · intro p hp
    by_cases hpo : p = o
    · subst hpo
      exact hIn.mp hp
    · rw [hOther p hpo]
      exact hMid.unheld p (hOld p hp hpo)
  · intro p hp hZero
    by_cases hpo : p = o
    · subst hpo
      exact absurd (hIn.mpr hZero) hp
    · rw [hOther p hpo] at hZero
      exact hMid.zero p (fun hp' => hp (hDead' hp')) hZero
  · intro p hp hDone c hc
    rw [Heap.setObject_objects] at hDone
    split at hDone
    · cases hDone
    · rename_i hpo
      exact Finset.mem_insert_of_mem (hMid.finished p (hOld p hp hpo) hDone c hc)

/-- The object whose last holder lets go dies. -/
theorem Mid.dies_of_outside {out dead : Finset Nat} {h : Heap} {b o : Nat} (hGood : Good h₀)
    (hMid : Mid h₀ a₀ out dead h) (hValue : h₀.value b = some (.object o)) (hGo : LetsGo h₀ a₀ b)
    (hZero : outside h₀ (insert b out) o = 0) : Dies h₀ a₀ o := by
  refine ⟨⟨b, hValue⟩, ?_⟩
  intro c hc
  by_cases hcOut : c ∈ insert b out
  · rcases Finset.mem_insert.mp hcOut with rfl | hcOut
    · exact hGo
    · exact hMid.gone c hcOut
  · have hPos := outside_insert hGood hcOut hc
    omega

/-- The fields of an object that dies have not let go yet. -/
theorem Mid.fields_notMem {out dead : Finset Nat} {h : Heap} {b o : Nat} {fields : List Nat}
    (hMid : Mid h₀ a₀ out dead h) (hTop : OwnerStays h₀ a₀) (hDies : Dies h₀ a₀ o)
    (hDead : o ∉ dead) (hFields : ∀ c ∈ fields, h₀.owner c = some o)
    (hOwner : b = a₀ ∨ ∃ p ∈ dead, h₀.owner b = some p) : ∀ c ∈ fields, c ∉ insert b out := by
  intro c hc hcOut
  have hco := hFields c hc
  have hcOwner : c = a₀ ∨ ∃ p ∈ dead, h₀.owner c = some p := by
    rcases Finset.mem_insert.mp hcOut with rfl | hcOut
    · exact hOwner
    · exact hMid.outOwner c hcOut
  rcases hcOwner with rfl | ⟨p, hp, hcp⟩
  · exact hTop o hco hDies
  · rw [hco] at hcp
    cases hcp
    exact hDead hp

/-- The end of an object whose fields have all let go. -/
theorem Mid.destroy {out dead : Finset Nat} {h : Heap} {o : Nat} {count : Int} {fields : List Nat}
    (hGood : Good h₀) (hMid : Mid h₀ a₀ out dead h) (ho : h₀.objects o = .live count fields)
    (hoDead : o ∈ dead) (hAllOut : ∀ c ∈ fields, c ∈ out) :
    Mid h₀ a₀ out dead (h.setObject o .destroyed) := by
  refine ⟨hMid.objectCount, hMid.slotCount, hMid.intact, hMid.gone, hMid.outOwner, hMid.dies, ?_, ?_,
    hMid.unheld, hMid.zero, ?_⟩
  · intro p k f hp hpLive
    have hpo : p ≠ o := fun hpo => hp (hpo ▸ hoDead)
    rw [Heap.setObject_objects, if_neg hpo]
    exact hMid.alive p k f hp hpLive
  · intro p hp
    have hpo : p ≠ o := by
      rintro rfl
      exact hp ⟨_, _, ho⟩
    rw [Heap.setObject_objects, if_neg hpo]
    exact hMid.rest p hp
  · intro p hp hDone c hc
    by_cases hpo : p = o
    · subst hpo
      obtain ⟨k, f, hf, hcf⟩ := hGood.owner c p hc
      rw [ho] at hf
      cases hf
      exact hAllOut c hcf
    · rw [Heap.setObject_objects, if_neg hpo] at hDone
      exact hMid.finished p hp hDone c hc

/-- A deletion, from the destruction of the fields of the object. -/
theorem Advances.destroy {out dead out' dead' : Finset Nat} {h h' : Heap} {o : Nat} {x : Life}
    {fields : List Nat} (hAdv : Advances h₀ fields out (insert o dead) out' dead' (h.setObject o x) h')
    (hDead : o ∉ dead) (hFields : ∀ c ∈ fields, h₀.owner c = some o) :
    Advances h₀ [] out dead out' dead' h (h'.setObject o .destroyed) := by
  have hoDead' : o ∈ dead' := hAdv.dead_sub (Finset.mem_insert_self o dead)
  refine ⟨hAdv.out_sub, (Finset.subset_insert o dead).trans hAdv.dead_sub, ?_, hAdv.outKept,
    hAdv.outErased, ?_, ?_⟩
  · intro c hc
    rcases hAdv.outNew c hc with hc | hc | ⟨p, hp, hNew, hcp⟩
    · exact Or.inl hc
    · exact Or.inr (Or.inr ⟨o, hoDead', hDead, hFields c hc⟩)
    · exact Or.inr (Or.inr ⟨p, hp, fun h => hNew (Finset.mem_insert_of_mem h), hcp⟩)
  · intro p hp
    have hpo : p ≠ o := fun hpo => hDead (hpo ▸ hp)
    rw [Heap.setObject_objects, if_neg hpo, hAdv.deadKept p (Finset.mem_insert_of_mem hp),
      Heap.setObject_objects, if_neg hpo]
  · intro p hp hNew
    rw [Heap.setObject_objects]
    split
    · rfl
    · next hpo => exact hAdv.deadNew p hp (by simp [hpo, hNew])

/-- All deletions of a cascade, by induction on how deep they may nest. -/
theorem letGo_spec (hGood : Good h₀) (hTop : OwnerStays h₀ a₀) (n : Nat) : LetGoSpec h₀ a₀ n := by
  induction n with
  | zero =>
    intro h out dead b o _ hFuel
    omega
  | succ n ih =>
    intro h out dead b o hMid hFuel hb hValue hGo hOwner
    obtain ⟨count, fields, ho⟩ := hGood.target b o hValue
    have hLess := outside_insert hGood hb hValue
    have hDead : o ∉ dead := by
      intro hDead
      have := hMid.unheld o hDead
      omega
    have hNow := hMid.alive o count fields hDead ho
    have hCount : ((outside h₀ out o : Nat) : Int) - 1 = (outside h₀ (insert b out) o : Nat) := by
      omega
    by_cases hZero : outside h₀ (insert b out) o = 0
    · have hDies := hMid.dies_of_outside hGood hValue hGo hZero
      have hMid₁ : Mid h₀ a₀ (insert b out) (insert o dead)
          (h.setObject o (.live (outside h₀ (insert b out) o) fields)) := by
        refine hMid.decrement hValue hGo hOwner ho (insert o dead)
          (Finset.subset_insert o dead) ?_ ?_ (by simp [hZero])
        · intro p hp
          exact (Finset.mem_insert.mp hp).symm
        · intro p hp
          rcases Finset.mem_insert.mp hp with rfl | hp
          · exact hDies
          · exact hMid.dies p hp
      obtain ⟨hNodup, hFields⟩ := hGood.fields o count fields ho
      have hRange : o < h₀.objectCount := by
        by_contra hLe
        rw [hGood.objectsEnd o (by omega)] at ho
        cases ho
      have hAlive := aliveCount_insert hRange hDead
      obtain ⟨h₂, out₂, dead₂, hRun, hMid₂, hAllOut, hAdv⟩ := dropSlots_spec ih fields hMid₁
        (by omega) hNodup (hMid.fields_notMem hTop hDies hDead hFields hOwner)
        (fun c hc => .field (hFields c hc) hDies.1 hDies.2)
        (fun c hc => ⟨o, Finset.mem_insert_self o dead, hFields c hc⟩)
      refine ⟨true, h₂.setObject o .destroyed, out₂, dead₂, ?_,
        hMid₂.destroy hGood ho (hAdv.dead_sub (Finset.mem_insert_self o dead)) hAllOut,
        hAdv.destroy hDead hFields⟩
      have hEq : ((outside h₀ (insert b out) o : Nat) : Int) = 0 := by omega
      simp only [letGo, hNow, hCount, if_pos hEq]
      rw [hRun]
      rfl
    · -- Other slots still hold the object.
      refine ⟨false, h.setObject o (.live (outside h₀ (insert b out) o) fields), insert b out, dead,
        ?_, ?_, ?_⟩
      · have hNe : ((outside h₀ (insert b out) o : Nat) : Int) ≠ 0 := by omega
        simp only [letGo, hNow, hCount, if_neg hNe]
        rfl
      · exact hMid.decrement hValue hGo hOwner ho dead (fun _ hp => hp)
          (fun _ hp => Or.inl hp) hMid.dies (by simp [hDead, hZero])
      · refine ⟨fun _ hc => hc, fun _ hp => hp, fun c hc => Or.inl hc, fun _ _ => rfl,
          fun c hc hc' => absurd hc hc', ?_, fun p hp hp' => absurd hp hp'⟩
        intro p hp
        have hpo : p ≠ o := fun hpo => hDead (hpo ▸ hp)
        rw [Heap.setObject_objects, if_neg hpo]

/-- A release before anything has let go. -/
theorem Good.mid (hGood : Good h₀) (a₀ : Nat) : Mid h₀ a₀ ∅ ∅ h₀ := by
  have hAll : ∀ o, outside h₀ ∅ o = h₀.holders o := by
    intro o
    simp [outside, Heap.holders]
  refine ⟨rfl, rfl, fun _ _ => rfl, by simp, by simp, by simp, ?_, fun _ _ => rfl, by simp, ?_,
    by simp⟩
  · intro o count fields _ ho
    rw [hAll, ← hGood.count o count fields ho]
    exact ho
  · intro o _ hZero
    rw [← hAll]
    exact hZero

/-- A heap after a release: the slots of `out` other than `a₀` have ended with their
objects, which are those of `dead`. -/
structure Released (h₀ : Heap) (a₀ : Nat) (out dead : Finset Nat) (h : Heap) : Prop where
  mid : Mid h₀ a₀ out dead h
  self : a₀ ∈ out
  erased : ∀ c ∈ out, c ≠ a₀ → h.slots c = none
  destroyed : ∀ p ∈ dead, h.objects p = .destroyed

theorem release_spec (hGood : Good h₀) (hTop : OwnerStays h₀ a₀) {s : Slot}
    (hs : h₀.slots a₀ = some s) :
    ∃ h out dead v, release a₀ h₀ = .ok h ∧ Released h₀ a₀ out dead h ∧
      h.slots a₀ = some { s with value := v } := by
  have hFuel : aliveCount h₀ ∅ < h₀.objectCount + 1 := by
    have hLe : aliveCount h₀ ∅ ≤ (Finset.range h₀.objectCount).card :=
      Finset.card_le_card (Finset.filter_subset _ _)
    rw [Finset.card_range] at hLe
    omega
  obtain ⟨h, out, dead, v, hRun, hMid, hSlot, hSelf, hAdv⟩ :=
    releaseSlot_spec (letGo_spec hGood hTop _) (hGood.mid a₀) hFuel (by simp) hs .self (Or.inl rfl)
  refine ⟨h, out, dead, v, hRun, ⟨hMid, hSelf, ?_, fun p hp => hAdv.deadNew p hp (by simp)⟩, hSlot⟩
  intro c hc hca
  exact hAdv.outErased c hc (by simpa using hca)

end Cascade

/-! ## What an operation leaves alone -/

/-- The slots that are not in `T` keep their values or end with their objects, and an
object is deleted only if it was held and never left unheld. -/
structure Keeps (T : Nat → Prop) (h h' : Heap) : Prop where
  frame : ∀ c, ¬ T c → h'.slots c = h.slots c ∨
    h'.slots c = none ∧ ∃ p, h.owner c = some p ∧ h'.objects p = .destroyed
  destroyed : ∀ o, h.objects o = .destroyed → h'.objects o = .destroyed
  live : ∀ o, h.Live o → h'.Live o ∨ h'.objects o = .destroyed
  born : ∀ o, h'.Live o → h.Live o
  dies : ∀ o, h'.objects o = .destroyed → h.objects o = .destroyed ∨ 0 < h.holders o
  zero : ∀ o, h'.Live o → h'.holders o = 0 → h.holders o = 0

theorem holders_pos {h : Heap} (hGood : Good h) {o : Nat} :
    0 < h.holders o ↔ ∃ c, h.value c = some (.object o) := by
  unfold Heap.holders
  rw [Finset.card_pos]
  constructor
  · rintro ⟨c, hc⟩
    exact ⟨c, (Finset.mem_filter.mp hc).2⟩
  · rintro ⟨c, hc⟩
    refine ⟨c, Finset.mem_filter.mpr ⟨Finset.mem_range.mpr ?_, hc⟩⟩
    by_contra hLe
    rw [Heap.value, hGood.slotsEnd c (by omega)] at hc
    cases hc

/-- A heap at the end of an operation that released slot `a`, compared with the one before it: the
slot holds `x` or has ended, and the count of what it holds is one more. -/
structure Finished (h₀ : Heap) (a : Nat) (s : Slot) (x : Option Value) (out dead : Finset Nat)
    (h : Heap) : Prop where
  objectCount : h.objectCount = h₀.objectCount
  slotCount : h.slotCount = h₀.slotCount
  self : h.slots a = x.map (fun v => { s with value := v })
  intact : ∀ c, c ∉ out → h.slots c = h₀.slots c
  erased : ∀ c ∈ out, c ≠ a → h.slots c = none
  holders : ∀ o, h.holders o = outside h₀ out o + if x = some (.object o) then 1 else 0
  alive : ∀ o count fields, o ∉ dead → h₀.objects o = .live count fields →
    h.objects o = .live (h.holders o)
      (if x = none ∧ s.owner = some o then fields.erase a else fields)
  destroyed : ∀ o ∈ dead, h.objects o = .destroyed
  rest : ∀ o, ¬ h₀.Live o → h.objects o = h₀.objects o

/-- The holders at the end are those that have not let go, and slot `a`. -/
theorem holders_finished {h₀ h : Heap} {a : Nat} {out : Finset Nat} {x : Option Value}
    (hSlotCount : h.slotCount = h₀.slotCount) (ha : a < h₀.slotCount) (hSelf : a ∈ out)
    (hValue : h.value a = x) (hIn : ∀ c, c ∉ out → h.slots c = h₀.slots c)
    (hOut : ∀ c ∈ out, c ≠ a → h.slots c = none) (o : Nat) :
    h.holders o = outside h₀ out o + if x = some (.object o) then 1 else 0 := by
  have hCond : ∀ c, h.value c = some (.object o) ↔
      c ∉ out ∧ h₀.value c = some (.object o) ∨ c = a ∧ x = some (.object o) := by
    intro c
    by_cases hca : c = a
    · subst hca
      rw [hValue]
      simp [hSelf]
    · by_cases hc : c ∈ out
      · simp [Heap.value, hOut c hc hca, hc, hca]
      · simp [Heap.value, hIn c hc, hc, hca]
  unfold Heap.holders outside
  rw [hSlotCount]
  split
  · next hx =>
    have hInsert : (Finset.range h₀.slotCount).filter (fun c => h.value c = some (.object o)) =
        insert a ((Finset.range h₀.slotCount).filter
          (fun c => c ∉ out ∧ h₀.value c = some (.object o))) := by
      ext c
      simp only [Finset.mem_filter, Finset.mem_insert, hCond]
      constructor
      · rintro ⟨hc, ⟨hcOut, hv⟩ | ⟨hca, -⟩⟩
        · exact Or.inr ⟨hc, hcOut, hv⟩
        · exact Or.inl hca
      · rintro (rfl | ⟨hc, hcOut, hv⟩)
        · exact ⟨Finset.mem_range.mpr ha, Or.inr ⟨rfl, hx⟩⟩
        · exact ⟨hc, Or.inl ⟨hcOut, hv⟩⟩
    rw [hInsert, Finset.card_insert_of_notMem]
    simp [hSelf]
  · next hx =>
    rw [Nat.add_zero]
    congr 1
    ext c
    simp only [Finset.mem_filter, hCond, hx, and_false, or_false]

section Finish

variable {h₀ h : Heap} {a : Nat} {out dead : Finset Nat} {s : Slot} {x : Option Value}

/-- The last step of an operation that released slot `a`: the slot holds `x`, or it has ended
and its owner has lost it, and the count of what it holds is one more. -/
structure Ends (h h' : Heap) (a : Nat) (s : Slot) (x : Option Value) : Prop where
  objectCount : h'.objectCount = h.objectCount
  slotCount : h'.slotCount = h.slotCount
  slots : ∀ c, h'.slots c = if c = a then x.map (fun v => { s with value := v }) else h.slots c
  objects : ∀ o, h'.objects o = match h.objects o with
    | .live count fields => .live (if x = some (.object o) then count + 1 else count)
        (if x = none ∧ s.owner = some o then fields.erase a else fields)
    | life => life

theorem Released.finished {h' : Heap} (hGood : Good h₀) (hRel : Released h₀ a out dead h)
    (hs : h₀.slots a = some s) (hEnds : Ends h h' a s x) : Finished h₀ a s x out dead h' := by
  obtain ⟨hObjectCount, hSlotCount, hSlots, hObjects⟩ := hEnds
  have hMid := hRel.mid
  have hSelf : h'.slots a = x.map (fun v => { s with value := v }) := by rw [hSlots, if_pos rfl]
  have hValue : h'.value a = x := by
    rw [Heap.value, hSelf]
    cases x <;> rfl
  have hIn : ∀ c, c ∉ out → h'.slots c = h₀.slots c := by
    intro c hc
    have hca : c ≠ a := by
      intro hca
      rw [hca] at hc
      exact hc hRel.self
    rw [hSlots, if_neg hca, hMid.intact c hc]
  have hOut : ∀ c ∈ out, c ≠ a → h'.slots c = none := by
    intro c hc hca
    rw [hSlots, if_neg hca, hRel.erased c hc hca]
  have ha : a < h₀.slotCount := by
    by_contra hLe
    rw [hGood.slotsEnd a (by omega)] at hs
    cases hs
  have hHolders := holders_finished (hSlotCount.trans hMid.slotCount) ha hRel.self hValue hIn hOut
  refine ⟨hObjectCount.trans hMid.objectCount, hSlotCount.trans hMid.slotCount, hSelf, hIn, hOut,
    hHolders, ?_, ?_, ?_⟩
  · intro o count fields ho hLife
    rw [hObjects, hMid.alive o count fields ho hLife, hHolders]
    dsimp only
    congr 1
    split <;> simp
  · intro o ho
    rw [hObjects, hRel.destroyed o ho]
  · intro o ho
    rw [hObjects, hMid.rest o ho]
    cases hLife : h₀.objects o with
    | live count fields => exact absurd ⟨count, fields, hLife⟩ ho
    | unborn => rfl
    | destroyed => rfl

namespace Finished

theorem value (hFin : Finished h₀ a s x out dead h) : h.value a = x := by
  rw [Heap.value, hFin.self]
  cases x <;> rfl

theorem live (hFin : Finished h₀ a s x out dead h) {o : Nat} (ho : h.Live o) :
    o ∉ dead ∧ h₀.Live o := by
  obtain ⟨count, fields, hLife⟩ := ho
  constructor
  · intro hoDead
    rw [hFin.destroyed o hoDead] at hLife
    cases hLife
  · by_contra hNot
    rw [hFin.rest o hNot] at hLife
    exact hNot ⟨count, fields, hLife⟩

theorem lives (hFin : Finished h₀ a s x out dead h) {o : Nat} (ho : h₀.Live o) (hDead : o ∉ dead) :
    h.Live o := by
  obtain ⟨count, fields, hLife⟩ := ho
  exact ⟨_, _, hFin.alive o count fields hDead hLife⟩

/-- Nothing is held that does not live. -/
theorem target (hFin : Finished h₀ a s x out dead h) (hGood : Good h₀) {h₁ : Heap}
    (hMid : Mid h₀ a out dead h₁) (hLive : ∀ o, x = some (.object o) → o ∉ dead ∧ h₀.Live o)
    {c o : Nat} (hc : h.value c = some (.object o)) : h.Live o := by
  by_cases hca : c = a
  · rw [hca, hFin.value] at hc
    obtain ⟨hoDead, hoLive⟩ := hLive o hc
    exact hFin.lives hoLive hoDead
  · by_cases hcOut : c ∈ out
    · rw [Heap.value, hFin.erased c hcOut hca] at hc
      cases hc
    · have hv : h₀.value c = some (.object o) := by
        rw [← hc, Heap.value, Heap.value, hFin.intact c hcOut]
      -- A slot that has not let go holds no object that is deleted.
      have hoDead : o ∉ dead := by
        intro ho
        have hPos := outside_insert hGood hcOut hv
        have hNone := hMid.unheld o ho
        omega
      exact hFin.lives (hGood.target c o hv) hoDead

/-- A slot with an owner is a field of a live object. -/
theorem owner (hFin : Finished h₀ a s x out dead h) (hGood : Good h₀) (hTop : OwnerStays h₀ a)
    {h₁ : Heap} (hRel : Released h₀ a out dead h₁) (hs : h₀.slots a = some s) {c p : Nat}
    (hc : h.owner c = some p) : ∃ count fields, h.objects p = .live count fields ∧ c ∈ fields := by
  by_cases hca : c = a
  · subst hca
    have hOwner₀ : h₀.owner c = s.owner := by simp [Heap.owner, hs]
    rw [Heap.owner, hFin.self] at hc
    cases hx : x with
    | none =>
      rw [hx] at hc
      cases hc
    | some v =>
      have hp : s.owner = some p := by
        rw [hx] at hc
        exact hc
      obtain ⟨k, f, hf, hcf⟩ := hGood.owner c p (hOwner₀.trans hp)
      have hpDead : p ∉ dead := fun hpDead => hTop p (hOwner₀.trans hp) (hRel.mid.dies p hpDead)
      exact ⟨_, _, hFin.alive p k f hpDead hf, by simpa [hx] using hcf⟩
  · by_cases hcOut : c ∈ out
    · rw [Heap.owner, hFin.erased c hcOut hca] at hc
      cases hc
    · have hcp : h₀.owner c = some p := by
        rw [← hc, Heap.owner, Heap.owner, hFin.intact c hcOut]
      -- The object that owns a slot outside of `out` is not deleted.
      have hpDead : p ∉ dead := fun hp =>
        hcOut (hRel.mid.finished p hp (hRel.destroyed p hp) c hcp)
      obtain ⟨k, f, hf, hcf⟩ := hGood.owner c p hcp
      refine ⟨_, _, hFin.alive p k f hpDead hf, ?_⟩
      split
      · exact (List.mem_erase_of_ne hca).mpr hcf
      · exact hcf

/-- The fields of a live object are its own. -/
theorem fields (hFin : Finished h₀ a s x out dead h) (hGood : Good h₀) {h₁ : Heap}
    (hMid : Mid h₀ a out dead h₁) (hs : h₀.slots a = some s) {p : Nat} {count : Int}
    {fields : List Nat} (hp : h.objects p = .live count fields) :
    fields.Nodup ∧ ∀ c ∈ fields, h.owner c = some p := by
  obtain ⟨hpDead, k, f, hf⟩ := hFin.live ⟨count, fields, hp⟩
  obtain ⟨hNodup, hFields⟩ := hGood.fields p k f hf
  rw [hFin.alive p k f hpDead hf] at hp
  injection hp with _ hp
  -- A field that has let go would belong to a deleted object.
  have hStays : ∀ c ∈ f, c ≠ a → h.owner c = some p := by
    intro c hc hca
    have hcOut : c ∉ out := by
      intro hcOut
      obtain ⟨q, hq, hcq⟩ := (hMid.outOwner c hcOut).resolve_left hca
      rw [hFields c hc] at hcq
      cases hcq
      exact hpDead hq
    rw [Heap.owner, hFin.intact c hcOut]
    exact hFields c hc
  subst hp
  split
  · refine ⟨hNodup.erase a, ?_⟩
    intro c hc
    obtain ⟨hca, hcf⟩ := hNodup.mem_erase_iff.mp hc
    exact hStays c hcf hca
  · next hNot =>
    refine ⟨hNodup, ?_⟩
    intro c hc
    by_cases hca : c = a
    · subst hca
      have hOwner₀ : h₀.owner c = s.owner := by simp [Heap.owner, hs]
      have hcp : s.owner = some p := hOwner₀.symm.trans (hFields c hc)
      cases hx : x with
      | none => exact absurd ⟨hx, hcp⟩ hNot
      | some v => simp [Heap.owner, hFin.self, hx, hcp]
    · exact hStays c hc hca

theorem good (hFin : Finished h₀ a s x out dead h) (hGood : Good h₀) (hTop : OwnerStays h₀ a)
    {h₁ : Heap} (hRel : Released h₀ a out dead h₁) (hs : h₀.slots a = some s)
    (hKind : ∀ v, x = some v → s.kind.takes v = v)
    (hLive : ∀ o, x = some (.object o) → o ∉ dead ∧ h₀.Live o) : Good h := by
  refine ⟨?_, ?_, ?_, fun c o hc => hFin.target hGood hRel.mid hLive hc,
    fun c p hc => hFin.owner hGood hTop hRel hs hc,
    fun p count fields hp => hFin.fields hGood hRel.mid hs hp, ?_⟩
  · intro o ho
    rw [hFin.objectCount] at ho
    have hUnborn := hGood.objectsEnd o ho
    have hNot : ¬ h₀.Live o := Heap.not_live (by simp [hUnborn])
    rw [hFin.rest o hNot, hUnborn]
  · intro c hc
    rw [hFin.slotCount] at hc
    have hNone := hGood.slotsEnd c hc
    have hca : c ≠ a := by
      intro hca
      rw [hca, hs] at hNone
      cases hNone
    by_cases hcOut : c ∈ out
    · exact hFin.erased c hcOut hca
    · rw [hFin.intact c hcOut, hNone]
  · intro o count fields ho
    obtain ⟨hoDead, k, f, hf⟩ := hFin.live ⟨count, fields, ho⟩
    rw [hFin.alive o k f hoDead hf] at ho
    cases ho
    rfl
  · intro c t hc
    by_cases hca : c = a
    · rw [hca, hFin.self] at hc
      obtain ⟨v, hv, rfl⟩ := Option.map_eq_some_iff.mp hc
      exact hKind v hv
    · by_cases hcOut : c ∈ out
      · rw [hFin.erased c hcOut hca] at hc
        cases hc
      · rw [hFin.intact c hcOut] at hc
        exact hGood.kind c t hc

theorem keeps (hFin : Finished h₀ a s x out dead h) (hGood : Good h₀) {h₁ : Heap}
    (hMid : Mid h₀ a out dead h₁) : Keeps (· = a) h₀ h := by
  refine ⟨?_, ?_, ?_, fun o ho => (hFin.live ho).2, ?_, ?_⟩
  · intro c hca
    by_cases hcOut : c ∈ out
    · obtain ⟨p, hp, hcp⟩ := (hMid.outOwner c hcOut).resolve_left hca
      exact Or.inr ⟨hFin.erased c hcOut hca, p, hcp, hFin.destroyed p hp⟩
    · exact Or.inl (hFin.intact c hcOut)
  · intro o ho
    have hNot : ¬ h₀.Live o := Heap.not_live (by simp [ho])
    rw [hFin.rest o hNot, ho]
  · intro o ho
    by_cases hoDead : o ∈ dead
    · exact Or.inr (hFin.destroyed o hoDead)
    · exact Or.inl (hFin.lives ho hoDead)
  · intro o ho
    by_cases hoDead : o ∈ dead
    · exact Or.inr ((holders_pos hGood).mpr (hMid.dies o hoDead).1)
    · left
      by_cases hoLive : h₀.Live o
      · obtain ⟨k, f, hf⟩ := hoLive
        rw [hFin.alive o k f hoDead hf] at ho
        cases ho
      · rw [← hFin.rest o hoLive, ho]
  · intro o hoLive hZero
    rw [hFin.holders] at hZero
    exact hMid.zero o (hFin.live hoLive).1 (by omega)

end Finished

/-- The end of an operation that released slot `a`. -/
theorem Released.finish {h' : Heap} (hGood : Good h₀) (hTop : OwnerStays h₀ a)
    (hRel : Released h₀ a out dead h) (hs : h₀.slots a = some s)
    (hKind : ∀ v, x = some v → s.kind.takes v = v) (hLive : ∀ o, x = some (.object o) → h.Live o)
    (hEnds : Ends h h' a s x) :
    Good h' ∧ Keeps (· = a) h₀ h' ∧ h'.value a = x ∧
      ∀ c, ¬ LetsGo h₀ a c → h'.slots c = h₀.slots c := by
  have hFin := hRel.finished hGood hs hEnds
  have hLive₀ : ∀ o, x = some (.object o) → o ∉ dead ∧ h₀.Live o := by
    intro o hx
    obtain ⟨count, fields, ho⟩ := hLive o hx
    constructor
    · intro hoDead
      rw [hRel.destroyed o hoDead] at ho
      cases ho
    · by_contra hNot
      rw [hRel.mid.rest o hNot] at ho
      exact hNot ⟨count, fields, ho⟩
  exact ⟨hFin.good hGood hTop hRel hs hKind hLive₀, hFin.keeps hGood hRel.mid, hFin.value,
    fun c hc => hFin.intact c fun hcOut => hc (hRel.mid.gone c hcOut)⟩

end Finish

end RetroConfig.Reference
