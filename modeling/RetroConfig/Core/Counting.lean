import RetroConfig.Core.Release

/-!
# Counts over whole runs

The operations of a program on its slots, and what is claimed of them: the count of every
live object is the number of slots that hold it, an object is destroyed exactly when its
last slot has let go of it, and an assignment gives a slot the value of its source and
changes no other slot.

This holds of every run in which no assignment meets the release before the retain
(`Spared`): a `Variant` is not assigned to itself, an assignment does not delete the object
that owns one of its two slots, and a pointer is not assigned that only the destination
keeps alive. Without this condition it fails (`variant_self_assignment`).
-/

namespace RetroConfig.Reference

/-! ## The operations that release -/

/-- The count after a retain. -/
def retained (v : Value) (h : Heap) : Heap :=
  match v with
  | .object o =>
    match h.objects o with
    | .live count fields => h.setObject o (.live (count + 1) fields)
    | _ => h
  | _ => h

theorem retain_ok {v : Value} {h : Heap} (hLive : ∀ o, v = .object o → h.Live o) :
    retain v h = .ok (retained v h) := by
  cases v with
  | null => rfl
  | plain x => rfl
  | object o =>
    obtain ⟨count, fields, ho⟩ := hLive o rfl
    simp only [retain, retainObject, retained, ho]

@[simp] theorem retained_slots (v : Value) (h : Heap) : (retained v h).slots = h.slots := by
  unfold retained
  split
  · split <;> rfl
  · rfl

@[simp] theorem retained_slotCount (v : Value) (h : Heap) :
    (retained v h).slotCount = h.slotCount := by
  unfold retained
  split
  · split <;> rfl
  · rfl

@[simp] theorem retained_objectCount (v : Value) (h : Heap) :
    (retained v h).objectCount = h.objectCount := by
  unfold retained
  split
  · split <;> rfl
  · rfl

theorem retained_objects (v : Value) (h : Heap) (o : Nat) :
    (retained v h).objects o = match h.objects o with
      | .live count fields => .live (if v = .object o then count + 1 else count) fields
      | life => life := by
  unfold retained
  split
  · rename_i p
    by_cases hop : o = p
    · subst hop
      cases hLife : h.objects o <;> simp [hLife, Heap.setObject_objects]
    · have hv : Value.object p ≠ .object o := by
        rintro ⟨⟩
        exact hop rfl
      have hSame : ∀ x, (h.setObject p x).objects o = h.objects o := fun x => by
        rw [Heap.setObject_objects, if_neg hop]
      simp only [if_neg hv]
      split
      · rw [hSame]
        cases h.objects o <;> rfl
      · cases h.objects o <;> rfl
  · rename_i hNot
    have hv : v ≠ .object o := hNot o
    simp only [if_neg hv]
    cases h.objects o <;> rfl

theorem retained_setSlot (v : Value) (h : Heap) (a : Nat) (s : Option Slot) :
    retained v (h.setSlot a s) = (retained v h).setSlot a s := by
  cases v with
  | null => rfl
  | plain x => rfl
  | object o =>
    simp only [retained, Heap.setSlot_objects]
    cases h.objects o <;> rfl

section Operations

variable {h : Heap} {a : Nat} {s : Slot}

/-- A slot that was released is given a value. -/
theorem Released.set {out dead : Finset Nat} {h₁ : Heap} {s₁ : Slot} (hGood : Good h)
    (hTop : OwnerStays h a) (hRel : Released h a out dead h₁) (hs : h.slots a = some s) {w v : Value}
    (hs₁ : h₁.slots a = some s₁) (hEq : s₁ = { s with value := w }) (hKind : s.kind.takes v = v)
    (hLive : ∀ o, v = .object o → h₁.Live o) :
    ∃ h', (h₁.setValue a v >>= retain v) = .ok h' ∧ (retain v h₁ >>= fun h => h.setValue a v) = .ok h' ∧
      Good h' ∧ Keeps (· = a) h h' ∧ h'.value a = some v := by
  subst hEq
  have hEnds : Ends h₁ ((retained v h₁).setSlot a (some { s with value := v })) a s (some v) := by
    refine ⟨by simp, by simp, ?_, ?_⟩
    · intro c
      rw [Heap.setSlot_slots, retained_slots]
      rfl
    · intro o
      rw [Heap.setSlot_objects, retained_objects]
      cases h₁.objects o <;> simp
  obtain ⟨hGood', hKeeps, hValue, -⟩ := hRel.finish hGood hTop hs
    (by rintro v' ⟨⟩; exact hKind) (by intro o hEq; cases hEq; exact hLive o rfl) hEnds
  refine ⟨_, ?_, ?_, hGood', hKeeps, hValue⟩
  · rw [Heap.setValue_ok hs₁, Transition.ok_bind, ← retained_setSlot]
    exact retain_ok hLive
  · rw [retain_ok hLive, Transition.ok_bind, Heap.setValue_ok (by simpa using hs₁)]

theorem Released.live_of_holder {out dead : Finset Nat} {h₁ : Heap} (hGood : Good h)
    (hRel : Released h a out dead h₁) {c o : Nat} (hc : c ∉ out)
    (hValue : h.value c = some (.object o)) : h₁.Live o := by
  obtain ⟨count, fields, ho⟩ := hGood.target c o hValue
  have hDead : o ∉ dead := by
    intro hDead
    have hLess := outside_insert hGood hc hValue
    have hNone := hRel.mid.unheld o hDead
    omega
  exact ⟨_, _, hRel.mid.alive o count fields hDead ho⟩

theorem Released.live_of_not_dies {out dead : Finset Nat} {h₁ : Heap}
    (hRel : Released h a out dead h₁) {o : Nat} (hLive : h.Live o) (hStays : ¬ Dies h a o) :
    h₁.Live o := by
  obtain ⟨count, fields, ho⟩ := hLive
  exact ⟨_, _, hRel.mid.alive o count fields (fun hDead => hStays (hRel.mid.dies o hDead)) ho⟩

theorem Keeps.refl (T : Nat → Prop) (h : Heap) : Keeps T h h :=
  ⟨fun _ _ => Or.inl rfl, fun _ ho => ho, fun _ ho => Or.inl ho, fun _ ho => ho,
    fun _ ho => Or.inl ho, fun _ _ ho => ho⟩

theorem clear_spec (hGood : Good h) (hTop : OwnerStays h a) (hs : h.slots a = some s) :
    ∃ h', clear a h = .ok h' ∧ Good h' ∧ Keeps (· = a) h h' ∧ h'.value a = some .null := by
  obtain ⟨h₁, out, dead, w, hRun, hRel, hs₁⟩ := release_spec hGood hTop hs
  obtain ⟨h', hSet, -, hRest⟩ := hRel.set hGood hTop hs hs₁ rfl (v := .null)
    (by cases s.kind <;> rfl) (by intro o hEq; cases hEq)
  refine ⟨h', ?_, hRest⟩
  rw [clear, hRun, Transition.ok_bind, ← hSet, Heap.setValue_ok hs₁]
  rfl

theorem assignPointer_spec {p : Option Nat} (hGood : Good h) (hTop : OwnerStays h a)
    (hs : h.slots a = some s) (hLive : ∀ o, p = some o → h.Live o)
    (hStays : ∀ o, p = some o → ¬ Dies h a o) :
    ∃ h', assignPointer a p h = .ok h' ∧ Good h' ∧ Keeps (· = a) h h' ∧
      h'.value a = some (ofPointer p) := by
  obtain ⟨h₁, out, dead, w, hRun, hRel, hs₁⟩ := release_spec hGood hTop hs
  have hLive₁ : ∀ o, ofPointer p = .object o → h₁.Live o := by
    intro o ho
    cases p with
    | none => cases ho
    | some q =>
      cases ho
      exact hRel.live_of_not_dies (hLive o rfl) (hStays o rfl)
  have hTakes : s.kind.takes (ofPointer p) = ofPointer p := by
    cases s.kind <;> cases p <;> rfl
  obtain ⟨h', hSet, -, hRest⟩ := hRel.set hGood hTop hs hs₁ rfl hTakes hLive₁
  exact ⟨h', by rw [assignPointer, hRun]; exact hSet, hRest⟩

/-- When `operator=` between two slots of a kind does what it says. A `Reference` does not
release if both hold the same; a `Variant` that is assigned to itself must be without a
value. -/
def Kind.Spared (kind : Kind) (h : Heap) (a b : Nat) : Prop :=
  match kind with
  | .reference => h.value a ≠ h.value b → OwnerStays h a ∧ ¬ LetsGo h a b
  | .variant => (b = a → h.value a = some .null) ∧ (b ≠ a → OwnerStays h a ∧ ¬ LetsGo h a b)

/-- `operator=` between two slots of a kind. -/
def Kind.assign : Kind → Nat → Nat → Heap → Except Fault Heap
  | .reference => ref
  | .variant => assignVariant

/-- After the release, the other slot still holds what it held. -/
theorem release_other {b : Nat} {t : Slot} (hGood : Good h) (hTop : OwnerStays h a)
    (hs : h.slots a = some s) (ht : h.slots b = some t) (hStays : ¬ LetsGo h a b)
    (hKind : s.kind.takes t.value = t.value) :
    ∃ h₁ h', release a h = .ok h₁ ∧ h₁.slots b = some t ∧
      (h₁.setValue a t.value >>= retain t.value) = .ok h' ∧
      (retain t.value h₁ >>= fun h => h.setValue a t.value) = .ok h' ∧
      Good h' ∧ Keeps (· = a) h h' ∧ h'.value a = some t.value := by
  obtain ⟨h₁, out, dead, w, hRun, hRel, hs₁⟩ := release_spec hGood hTop hs
  have hbOut : b ∉ out := fun hb => hStays (hRel.mid.gone b hb)
  have hLive : ∀ o, t.value = .object o → h₁.Live o := by
    intro o ho
    exact hRel.live_of_holder hGood hbOut (by simp [Heap.value, ht, ho])
  obtain ⟨h', hSet⟩ := hRel.set hGood hTop hs hs₁ rfl hKind hLive
  exact ⟨h₁, h', hRun, (hRel.mid.intact b hbOut).trans ht, hSet⟩

theorem kindAssign_spec {b : Nat} {t : Slot} (hGood : Good h) (hs : h.slots a = some s)
    (ht : h.slots b = some t) (hKind : t.kind = s.kind) (hSpared : s.kind.Spared h a b) :
    ∃ h', s.kind.assign a b h = .ok h' ∧ Good h' ∧ Keeps (· = a) h h' ∧
      h'.value a = some t.value := by
  have hTakes : s.kind.takes t.value = t.value := hKind ▸ hGood.kind b t ht
  have hva : h.value a = some s.value := by simp [Heap.value, hs]
  have hvb : h.value b = some t.value := by simp [Heap.value, ht]
  cases hk : s.kind with
  | reference =>
    rw [hk] at hSpared
    by_cases hEq : s.value = t.value
    · refine ⟨h, ?_, hGood, Keeps.refl _ h, hva.trans (congrArg some hEq)⟩
      show ref a b h = .ok h
      simp only [ref, Heap.slot_ok hs, Heap.slot_ok ht, Transition.ok_bind, hEq, ne_eq,
        not_true_eq_false, if_false]
      rw [Heap.setValue_ok hs, ← hEq]
      exact congrArg Except.ok (setSlot_same hs)
    · have hNe : h.value a ≠ h.value b := by
        rw [hva, hvb]
        simpa using hEq
      obtain ⟨hTop, hStays⟩ := hSpared hNe
      obtain ⟨h₁, h', hRun, hb₁, hSet, -, hRest⟩ := release_other hGood hTop hs ht hStays hTakes
      refine ⟨h', ?_, hRest⟩
      show ref a b h = .ok h'
      simp only [ref, Heap.slot_ok hs, Heap.slot_ok ht, Transition.ok_bind, ne_eq, hEq,
        not_false_eq_true, if_true, hRun, Heap.slot_ok hb₁]
      exact hSet
  | variant =>
    rw [hk] at hSpared
    by_cases hab : b = a
    · subst hab
      rw [hs] at ht
      cases ht
      have hNull : s.value = .null := by simpa [hva] using hSpared.1 rfl
      refine ⟨h, ?_, hGood, Keeps.refl _ h, hva⟩
      have hSet : h.setValue b .null = .ok h := by
        rw [Heap.setValue_ok hs, ← hNull]
        exact congrArg Except.ok (setSlot_same hs)
      have hRelease : release b h = .ok h := by
        simp only [release, releaseSlot, Heap.slot_ok hs, Transition.ok_bind, hNull, hk]
        exact hSet
      show assignVariant b b h = .ok h
      simp only [assignVariant, hRelease, Heap.slot_ok hs, Transition.ok_bind, hNull]
      exact hSet
    · obtain ⟨hTop, hStays⟩ := hSpared.2 hab
      obtain ⟨h₁, h', hRun, hb₁, -, hSet, hRest⟩ := release_other hGood hTop hs ht hStays hTakes
      refine ⟨h', ?_, hRest⟩
      show assignVariant a b h = .ok h'
      simp only [assignVariant, hRun, Transition.ok_bind, Heap.slot_ok hb₁]
      exact hSet

theorem destruct_spec (hGood : Good h) (hTop : OwnerStays h a) (hs : h.slots a = some s) :
    ∃ h', destruct a h = .ok h' ∧ Good h' ∧ Keeps (· = a) h h' ∧ h'.slots a = none ∧
      ∀ c, ¬ LetsGo h a c → h'.slots c = h.slots c := by
  obtain ⟨h₁, out, dead, w, hRun, hRel, hs₁⟩ := release_spec hGood hTop hs
  have hDrop : dropSlot (letGo (h.objectCount + 1)) a h = .ok (h₁.setSlot a none) := by
    rw [dropSlot, show releaseSlot (letGo (h.objectCount + 1)) a h = .ok h₁ from hRun]
    rfl
  have hNone : ∀ h' : Heap, h'.value a = none → h'.slots a = none :=
    fun h' hv => Option.map_eq_none_iff.mp hv
  -- The fields of the owner, if there is one.
  have hEnd : ∃ h', destruct a h = .ok h' ∧ Ends h₁ h' a s none := by
    cases hp : s.owner with
    | none =>
      refine ⟨h₁.setSlot a none, ?_, rfl, rfl, fun c => Heap.setSlot_slots h₁ a c none, ?_⟩
      · simp only [destruct, Heap.slot_ok hs, Transition.ok_bind, hDrop, hp]
        rfl
      · intro o
        rw [Heap.setSlot_objects]
        cases h₁.objects o <;> simp [hp]
    | some p =>
      have hOwner : h.owner a = some p := by simp [Heap.owner, hs, hp]
      obtain ⟨count, fields, hpLive, -⟩ := hGood.owner a p hOwner
      obtain ⟨k, f, hf⟩ := hRel.live_of_not_dies ⟨count, fields, hpLive⟩ (hTop p hOwner)
      refine ⟨(h₁.setSlot a none).setObject p (.live k (f.erase a)), ?_, rfl, rfl,
        fun c => Heap.setSlot_slots h₁ a c none, ?_⟩
      · simp only [destruct, Heap.slot_ok hs, Transition.ok_bind, hDrop, hp, Heap.setSlot_objects, hf]
        rfl
      · intro o
        rw [Heap.setObject_objects]
        by_cases hop : o = p
        · subst hop
          simp [hf, hp]
        · have hpo : p ≠ o := fun h => hop h.symm
          rw [if_neg hop, Heap.setSlot_objects]
          cases h₁.objects o <;> simp [hp, hpo]
  obtain ⟨h', hRun', hEnds⟩ := hEnd
  obtain ⟨hGood', hKeeps, hValue, hKept⟩ := hRel.finish hGood hTop hs
    (by intro v hEq; cases hEq) (by intro o hEq; cases hEq) hEnds
  exact ⟨h', hRun', hGood', hKeeps, hNone h' hValue, hKept⟩

/-! ## New slots -/

/-- The heap `h'` has one slot more than `h`, and what it holds is counted. -/
structure Added (h h' : Heap) (kind : Kind) (owner : Option Nat) (v : Value) : Prop where
  objectCount : h'.objectCount = h.objectCount
  slotCount : h'.slotCount = h.slotCount + 1
  self : h'.slots h.slotCount = some ⟨kind, owner, v⟩
  old : ∀ c, c ≠ h.slotCount → h'.slots c = h.slots c
  holders : ∀ o, h'.holders o = h.holders o + if v = .object o then 1 else 0
  alive : ∀ o count fields, h.objects o = .live count fields →
    h'.objects o = .live (h'.holders o) (if owner = some o then h.slotCount :: fields else fields)
  rest : ∀ o, ¬ h.Live o → h'.objects o = h.objects o

/-- The new slot is one more holder of what it holds. -/
theorem holders_added {h' : Heap} {v : Value} (hSlotCount : h'.slotCount = h.slotCount + 1)
    (hOld : ∀ c, c ≠ h.slotCount → h'.slots c = h.slots c) (hNew : h'.value h.slotCount = some v)
    (o : Nat) : h'.holders o = h.holders o + if v = .object o then 1 else 0 := by
  have hSame : ∀ c ∈ Finset.range h.slotCount,
      (h'.value c = some (.object o) ↔ h.value c = some (.object o)) := by
    intro c hc
    rw [Finset.mem_range] at hc
    rw [Heap.value, Heap.value, hOld c (by omega)]
  unfold Heap.holders
  rw [hSlotCount, Finset.range_add_one, Finset.filter_insert, Finset.filter_congr hSame, hNew]
  by_cases hv : v = .object o
  · rw [if_pos (congrArg some hv), if_pos hv, Finset.card_insert_of_notMem (by simp)]
  · rw [if_neg (by simpa using hv), if_neg hv, Nat.add_zero]

theorem Good.added {h' : Heap} {kind : Kind} {owner : Option Nat} {v : Value} (hGood : Good h)
    (hObjectCount : h'.objectCount = h.objectCount) (hSlotCount : h'.slotCount = h.slotCount + 1)
    (hSlots : ∀ c, h'.slots c = if c = h.slotCount then some ⟨kind, owner, v⟩ else h.slots c)
    (hObjects : ∀ o, h'.objects o = match h.objects o with
      | .live count fields => .live (if v = .object o then count + 1 else count)
          (if owner = some o then h.slotCount :: fields else fields)
      | life => life) : Added h h' kind owner v := by
  have hNew : h'.slots h.slotCount = some ⟨kind, owner, v⟩ := (hSlots _).trans (if_pos rfl)
  have hOld : ∀ c, c ≠ h.slotCount → h'.slots c = h.slots c := fun c hc => (hSlots c).trans (if_neg hc)
  have hHolders := holders_added hSlotCount hOld
    (by simp [Heap.value, hNew] : h'.value h.slotCount = some v)
  refine ⟨hObjectCount, hSlotCount, hNew, hOld, hHolders, ?_, ?_⟩
  · intro o count fields ho
    rw [hObjects, ho, hHolders, hGood.count o count fields ho]
    dsimp only
    congr 1
    split <;> simp
  · intro o ho
    rw [hObjects]
    cases hLife : h.objects o with
    | live count fields => exact absurd ⟨count, fields, hLife⟩ ho
    | unborn => rfl
    | destroyed => rfl

namespace Added

variable {h' : Heap} {kind : Kind} {owner : Option Nat} {v : Value}

theorem live_iff (hAdd : Added h h' kind owner v) (o : Nat) : h'.Live o ↔ h.Live o := by
  constructor
  · intro ho
    by_contra hNot
    obtain ⟨count, fields, ho⟩ := ho
    rw [hAdd.rest o hNot] at ho
    exact hNot ⟨count, fields, ho⟩
  · intro ho
    obtain ⟨count, fields, ho⟩ := ho
    exact ⟨_, _, hAdd.alive o count fields ho⟩

/-- The fields of a live object are its own. -/
theorem fields (hAdd : Added h h' kind owner v) (hGood : Good h) {p : Nat} {count : Int}
    {fields : List Nat} (hp : h'.objects p = .live count fields) :
    fields.Nodup ∧ ∀ c ∈ fields, h'.owner c = some p := by
  obtain ⟨k, f, hf⟩ := (hAdd.live_iff p).mp ⟨count, fields, hp⟩
  obtain ⟨hNodup, hFields⟩ := hGood.fields p k f hf
  have hNot : h.slotCount ∉ f := by
    intro hMem
    have hOwned := hFields _ hMem
    rw [Heap.owner, hGood.slotsEnd _ le_rfl] at hOwned
    cases hOwned
  rw [hAdd.alive p k f hf] at hp
  injection hp with _ hp
  subst hp
  have hStays : ∀ c ∈ f, h'.owner c = some p := by
    intro c hc
    have hcn : c ≠ h.slotCount := fun hcn => hNot (hcn ▸ hc)
    rw [Heap.owner, hAdd.old c hcn]
    exact hFields c hc
  split
  · next hp =>
    refine ⟨List.nodup_cons.mpr ⟨hNot, hNodup⟩, ?_⟩
    intro c hc
    rcases List.mem_cons.mp hc with rfl | hc
    · simp [Heap.owner, hAdd.self, hp]
    · exact hStays c hc
  · exact ⟨hNodup, hStays⟩

theorem good (hAdd : Added h h' kind owner v) (hGood : Good h) (hKind : kind.takes v = v)
    (hOwner : ∀ p, owner = some p → h.Live p) (hLive : ∀ o, v = .object o → h.Live o) :
    Good h' := by
  refine ⟨?_, ?_, ?_, ?_, ?_, fun p count fields hp => hAdd.fields hGood hp, ?_⟩
  · intro o ho
    rw [hAdd.objectCount] at ho
    have hUnborn := hGood.objectsEnd o ho
    have hNot : ¬ h.Live o := Heap.not_live (by simp [hUnborn])
    rw [hAdd.rest o hNot, hUnborn]
  · intro c hc
    rw [hAdd.slotCount] at hc
    rw [hAdd.old c (by omega)]
    exact hGood.slotsEnd c (by omega)
  · intro o count fields ho
    obtain ⟨k, f, hf⟩ := (hAdd.live_iff o).mp ⟨count, fields, ho⟩
    rw [hAdd.alive o k f hf] at ho
    cases ho
    rfl
  · intro c o hc
    apply (hAdd.live_iff o).mpr
    by_cases hcn : c = h.slotCount
    · rw [hcn, Heap.value, hAdd.self] at hc
      exact hLive o (Option.some.inj hc)
    · rw [Heap.value, hAdd.old c hcn] at hc
      exact hGood.target c o hc
  · intro c p hc
    by_cases hcn : c = h.slotCount
    · rw [hcn, Heap.owner, hAdd.self] at hc
      obtain ⟨k, f, hf⟩ := hOwner p hc
      refine ⟨_, _, hAdd.alive p k f hf, ?_⟩
      rw [if_pos (show owner = some p from hc), hcn]
      exact List.mem_cons_self
    · rw [Heap.owner, hAdd.old c hcn] at hc
      obtain ⟨k, f, hf, hcf⟩ := hGood.owner c p hc
      refine ⟨_, _, hAdd.alive p k f hf, ?_⟩
      split
      · exact List.mem_cons_of_mem _ hcf
      · exact hcf
  · intro c t hc
    by_cases hcn : c = h.slotCount
    · rw [hcn, hAdd.self] at hc
      cases hc
      exact hKind
    · rw [hAdd.old c hcn] at hc
      exact hGood.kind c t hc

theorem keeps (hAdd : Added h h' kind owner v) : Keeps (· = h.slotCount) h h' := by
  refine ⟨fun c hc => Or.inl (hAdd.old c hc), ?_, fun o ho => Or.inl ((hAdd.live_iff o).mpr ho),
    fun o ho => (hAdd.live_iff o).mp ho, ?_, ?_⟩
  · intro o ho
    have hNot : ¬ h.Live o := Heap.not_live (by simp [ho])
    rw [hAdd.rest o hNot, ho]
  · intro o ho
    left
    by_cases hoLive : h.Live o
    · obtain ⟨k, f, hf⟩ := hoLive
      rw [hAdd.alive o k f hf] at ho
      cases ho
    · rw [← hAdd.rest o hoLive, ho]
  · intro o _ hZero
    rw [hAdd.holders] at hZero
    omega

end Added

/-- The heap after `newSlot`. -/
def withNull (kind : Kind) (owner : Option Nat) (h : Heap) : Heap :=
  let h' := { h.setSlot h.slotCount (some ⟨kind, owner, .null⟩) with slotCount := h.slotCount + 1 }
  match owner with
  | none => h'
  | some p =>
    match h.objects p with
    | .live count fields => h'.setObject p (.live count (h.slotCount :: fields))
    | _ => h'

theorem newSlot_ok {kind : Kind} {owner : Option Nat} (hOwner : ∀ p, owner = some p → h.Live p) :
    newSlot kind owner h = .ok (withNull kind owner h) := by
  cases owner with
  | none => rfl
  | some p =>
    obtain ⟨count, fields, hp⟩ := hOwner p rfl
    simp only [newSlot, withNull, hp]
    rfl

theorem withNull_slots (kind : Kind) (owner : Option Nat) (h : Heap) (c : Nat) :
    (withNull kind owner h).slots c =
      if c = h.slotCount then some ⟨kind, owner, .null⟩ else h.slots c := by
  have hSet := Heap.setSlot_slots h h.slotCount c (some ⟨kind, owner, .null⟩)
  unfold withNull
  split
  · exact hSet
  · split <;> exact hSet

theorem withNull_counts (kind : Kind) (owner : Option Nat) (h : Heap) :
    (withNull kind owner h).slotCount = h.slotCount + 1 ∧
      (withNull kind owner h).objectCount = h.objectCount := by
  unfold withNull
  split
  · exact ⟨rfl, rfl⟩
  · split <;> exact ⟨rfl, rfl⟩

theorem withNull_objects (kind : Kind) (owner : Option Nat) (h : Heap) (o : Nat) :
    (withNull kind owner h).objects o = match h.objects o with
      | .live count fields =>
        .live count (if owner = some o then h.slotCount :: fields else fields)
      | life => life := by
  cases owner with
  | none =>
    show h.objects o = _
    cases h.objects o <;> simp
  | some p =>
    have hSame : ∀ x : Heap, x.objects = h.objects → o ≠ p → x.objects o = match h.objects o with
        | .live count fields =>
          .live count (if some p = some o then h.slotCount :: fields else fields)
        | life => life := by
      intro x hx hop
      have hpo : ¬ p = o := fun h => hop h.symm
      rw [hx]
      cases h.objects o <;> simp [hpo]
    unfold withNull
    dsimp only
    by_cases hop : o = p
    · subst hop
      cases hLife : h.objects o <;> simp [hLife, Heap.setObject_objects]
    · split
      · rw [Heap.setObject_objects, if_neg hop]
        exact hSame h rfl hop
      · exact hSame _ rfl hop

/-- The heap with a new slot that holds `v`. -/
def withValue (kind : Kind) (owner : Option Nat) (v : Value) (h : Heap) : Heap :=
  retained v ((withNull kind owner h).setSlot h.slotCount (some ⟨kind, owner, v⟩))

theorem withValue_objects (kind : Kind) (owner : Option Nat) (v : Value) (h : Heap) (o : Nat) :
    (withValue kind owner v h).objects o = match h.objects o with
      | .live count fields => .live (if v = .object o then count + 1 else count)
          (if owner = some o then h.slotCount :: fields else fields)
      | life => life := by
  rw [withValue, retained_objects, Heap.setSlot_objects, withNull_objects]
  cases h.objects o <;> rfl

theorem withValue_slots (kind : Kind) (owner : Option Nat) (v : Value) (h : Heap) (c : Nat) :
    (withValue kind owner v h).slots c =
      if c = h.slotCount then some ⟨kind, owner, v⟩ else h.slots c := by
  rw [withValue, retained_slots, Heap.setSlot_slots, withNull_slots]
  split <;> rfl

theorem withValue_spec {kind : Kind} {owner : Option Nat} {v : Value} (hGood : Good h)
    (hKind : kind.takes v = v) (hOwner : ∀ p, owner = some p → h.Live p)
    (hLive : ∀ o, v = .object o → h.Live o) :
    Good (withValue kind owner v h) ∧ Keeps (· = h.slotCount) h (withValue kind owner v h) ∧
      (withValue kind owner v h).slots h.slotCount = some ⟨kind, owner, v⟩ := by
  have hCounts := withNull_counts kind owner h
  have hAdd := hGood.added (by simp [withValue, hCounts.2]) (by simp [withValue, hCounts.1])
    (withValue_slots kind owner v h) (withValue_objects kind owner v h)
  exact ⟨hAdd.good hGood hKind hOwner hLive, hAdd.keeps, hAdd.self⟩

/-- Give the new slot its value and count it. -/
theorem setNew_ok (kind : Kind) (owner : Option Nat) {v : Value}
    (hLive : ∀ o, v = .object o → h.Live o) :
    ((withNull kind owner h).setValue h.slotCount v >>= retain v) =
      .ok (withValue kind owner v h) := by
  have hSlot : (withNull kind owner h).slots h.slotCount = some ⟨kind, owner, .null⟩ :=
    (withNull_slots kind owner h _).trans (if_pos rfl)
  rw [Heap.setValue_ok hSlot, Transition.ok_bind]
  apply retain_ok
  intro o ho
  obtain ⟨count, fields, hLife⟩ := hLive o ho
  refine ⟨count, if owner = some o then h.slotCount :: fields else fields, ?_⟩
  rw [Heap.setSlot_objects, withNull_objects, hLife]

/-- A release of an object that is held twice only lowers its count. -/
theorem letGo_shared {n o : Nat} {count : Int} {fields : List Nat}
    (ho : h.objects o = .live count fields) (hCount : count - 1 ≠ 0) :
    letGo (n + 1) o h = .ok (false, h.setObject o (.live (count - 1) fields)) := by
  simp only [letGo, ho, if_neg hCount]
  rfl

theorem setObject_setObject (h : Heap) (o : Nat) (x y : Life) :
    (h.setObject o x).setObject o y = h.setObject o y := by
  simp [Heap.setObject]

/-- The value of a source. -/
def Source.value (src : Source) (h : Heap) : Option Value :=
  match src with
  | .slot b => h.value b
  | .pointer p => some (ofPointer p)
  | .number x => some (.plain x)

/-- A slot that is read lives, and so does an object that is pointed to. -/
def Source.Valid (src : Source) (h : Heap) : Prop :=
  match src with
  | .slot b => h.slots b ≠ none
  | .pointer p => ∀ o, p = some o → h.Live o
  | .number _ => True

theorem Source.Valid.value {src : Source} (hGood : Good h) (hValid : src.Valid h) :
    ∃ v, src.value h = some v ∧ ∀ o, v = .object o → h.Live o := by
  cases src with
  | slot b =>
    obtain ⟨t, ht⟩ := Option.ne_none_iff_exists'.mp hValid
    have hv : h.value b = some t.value := by simp [Heap.value, ht]
    exact ⟨t.value, hv, fun o ho => hGood.target b o (ho ▸ hv)⟩
  | pointer p =>
    refine ⟨ofPointer p, rfl, ?_⟩
    intro o ho
    cases p with
    | none => cases ho
    | some q =>
      cases ho
      exact hValid o rfl
  | number x => exact ⟨.plain x, rfl, by intro o hEq; cases hEq⟩

theorem takes_takes (kind : Kind) (v : Value) : kind.takes (kind.takes v) = kind.takes v := by
  cases kind <;> cases v <;> rfl

theorem takes_object {kind : Kind} {v : Value} {o : Nat} (h : kind.takes v = .object o) :
    v = .object o := by
  cases kind <;> cases v <;> first | exact h | cases h

/-- `Reference(const Variant &)` of an object. -/
theorem fromVariant_ok {owner : Option Nat} {o : Nat} (hGood : Good h) (hLive : h.Live o) :
    (do
      let h₁ ← retainObject o (withNull .reference owner h)
      let h₂ ← h₁.setValue h.slotCount (.object o)
      let h₃ ← retainObject o h₂
      let (_, h₄) ← letGo (h₃.objectCount + 1) o h₃
      pure h₄) = .ok (withValue .reference owner (.object o) h) := by
  obtain ⟨count, fields, ho⟩ := hLive
  have hCount := hGood.count o count fields ho
  let h₁ := withNull .reference owner h
  let f := if owner = some o then h.slotCount :: fields else fields
  have ho₁ : h₁.objects o = .live count f := by
    rw [withNull_objects, ho]
  have hSlot : (h₁.setObject o (.live (count + 1) f)).slots h.slotCount =
      some ⟨.reference, owner, .null⟩ := (withNull_slots _ owner h _).trans (if_pos rfl)
  let h₂ := (h₁.setObject o (.live (count + 1) f)).setSlot h.slotCount
    (some ⟨.reference, owner, .object o⟩)
  have ho₂ : h₂.objects o = .live (count + 1) f :=
    (Heap.setObject_objects h₁ o o _).trans (if_pos rfl)
  have ho₃ : (h₂.setObject o (.live (count + 1 + 1) f)).objects o = .live (count + 1 + 1) f :=
    (Heap.setObject_objects h₂ o o _).trans (if_pos rfl)
  have hRetain₁ : retainObject o h₁ = .ok (h₁.setObject o (.live (count + 1) f)) := by
    simp only [retainObject, ho₁]
  have hRetain₂ : retainObject o h₂ = .ok (h₂.setObject o (.live (count + 1 + 1) f)) := by
    simp only [retainObject, ho₂]
  have hShared := letGo_shared (n := (h₂.setObject o (.live (count + 1 + 1) f)).objectCount) ho₃
    (by omega)
  show (retainObject o h₁ >>= _) = _
  rw [hRetain₁, Transition.ok_bind, Heap.setValue_ok hSlot, Transition.ok_bind]
  show (retainObject o h₂ >>= _) = _
  rw [hRetain₂, Transition.ok_bind, hShared, Transition.ok_bind, setObject_setObject]
  have hBack : count + 1 + 1 - 1 = count + 1 := by omega
  simp only [withValue, retained, Heap.setSlot_objects, hBack]
  rw [show (withNull .reference owner h).objects o = .live count f from ho₁]
  show Except.ok (h₂.setObject o (.live (count + 1) f)) = _
  congr 1
  show ((h₁.setObject o (.live (count + 1) f)).setSlot h.slotCount _).setObject o _ = _
  simp [Heap.setObject, Heap.setSlot, h₁]

theorem construct_ok {kind : Kind} {owner : Option Nat} {src : Source} {v : Value} (hGood : Good h)
    (hOwner : ∀ p, owner = some p → h.Live p) (hv : src.value h = some v)
    (hLive : ∀ o, v = .object o → h.Live o) :
    construct kind owner src h = .ok (withValue kind owner (kind.takes v) h) := by
  have hSet := setNew_ok kind owner
    (fun o (ho : kind.takes v = .object o) => hLive o (takes_object ho))
  cases src with
  | slot b =>
    obtain ⟨t, ht, rfl⟩ := Heap.exists_slot_of_value hv
    simp only [construct, Heap.slot_ok ht, Transition.ok_bind, newSlot_ok hOwner]
    split
    · rename_i o _ hValue
      rw [hValue]
      exact fromVariant_ok hGood (hLive o hValue)
    · exact hSet
  | pointer p =>
    cases hv
    have hTakes : kind.takes (ofPointer p) = ofPointer p := by cases kind <;> cases p <;> rfl
    rw [hTakes] at hSet ⊢
    simp only [construct, newSlot_ok hOwner, Transition.ok_bind]
    exact hSet
  | number x =>
    cases hv
    have hPlain : ∀ r : Except Fault Heap, (r >>= retain (kind.takes (.plain x))) = r := by
      intro r
      cases r <;> cases kind <;> rfl
    simp only [construct, newSlot_ok hOwner, Transition.ok_bind]
    rw [← hPlain ((withNull kind owner h).setValue h.slotCount (kind.takes (.plain x)))]
    exact hSet

theorem Keeps.trans {T T' : Nat → Prop} {h₁ h₂ : Heap} (hKeeps : Keeps T h h₁)
    (hKeeps' : Keeps T' h₁ h₂)
    (hHeld : ∀ o, h₂.objects o = .destroyed → 0 < h₁.holders o → 0 < h.holders o) :
    Keeps (fun c => T c ∨ T' c) h h₂ := by
  refine ⟨?_, fun o ho => hKeeps'.destroyed o (hKeeps.destroyed o ho), ?_,
    fun o ho => hKeeps.born o (hKeeps'.born o ho), ?_, ?_⟩
  · intro c hc
    obtain ⟨hcT, hcT'⟩ := not_or.mp hc
    rcases hKeeps'.frame c hcT' with hSame | ⟨hNone, p, hcp, hp⟩
    · rcases hKeeps.frame c hcT with hSame' | ⟨hNone, p, hcp, hp⟩
      · exact Or.inl (hSame.trans hSame')
      · exact Or.inr ⟨hSame.trans hNone, p, hcp, hKeeps'.destroyed p hp⟩
    · rcases hKeeps.frame c hcT with hSame' | ⟨hNone', -⟩
      · exact Or.inr ⟨hNone, p, by rw [← hcp, Heap.owner, Heap.owner, hSame'], hp⟩
      · rw [Heap.owner, hNone'] at hcp
        cases hcp
  · intro o ho
    rcases hKeeps.live o ho with ho | ho
    · exact hKeeps'.live o ho
    · exact Or.inr (hKeeps'.destroyed o ho)
  · intro o ho
    rcases hKeeps'.dies o ho with ho' | hPos
    · exact hKeeps.dies o ho'
    · exact Or.inr (hHeld o ho hPos)
  · intro o hLive hZero
    exact hKeeps.zero o (hKeeps'.born o hLive) (hKeeps'.zero o hLive hZero)

/-- If another slot holds the same object, only the slot itself lets go. -/
theorem letsGo_of_shared
    (hShared : ∀ o, h.value a = some (.object o) → ∃ c, c ≠ a ∧ h.value c = some (.object o))
    {b : Nat} (hb : LetsGo h a b) : b = a := by
  induction hb with
  | self => rfl
  | field _ hHeld _ ih =>
    obtain ⟨c, hc⟩ := hHeld
    have hca := ih c hc
    subst hca
    obtain ⟨d, hdc, hd⟩ := hShared _ hc
    exact absurd (ih d hd) hdc

theorem ownerStays_of_shared
    (hShared : ∀ o, h.value a = some (.object o) → ∃ c, c ≠ a ∧ h.value c = some (.object o)) :
    OwnerStays h a := by
  rintro p - ⟨⟨c, hc⟩, hAll⟩
  have hca := letsGo_of_shared hShared (hAll c hc)
  subst hca
  obtain ⟨d, hdc, hd⟩ := hShared _ hc
  exact hdc (letsGo_of_shared hShared (hAll d hd))

/-- A slot whose object another slot holds too lets go of it. -/
theorem released_shared (hGood : Good h)
    (hShared : ∀ o, h.value a = some (.object o) → ∃ c, c ≠ a ∧ h.value c = some (.object o)) :
    ∃ h₁, Released h a {a} ∅ h₁ ∧ (∀ o, h₁.objects o = match h.objects o with
        | .live count fields =>
          .live (if h.value a = some (.object o) then count - 1 else count) fields
        | life => life) ∧ h₁.slots = h.slots ∧ h₁.slotCount = h.slotCount ∧
      h₁.objectCount = h.objectCount := by
  have hInsert : insert a (∅ : Finset Nat) = {a} := by simp
  have hRel : ∀ h₁, Mid h a {a} ∅ h₁ → Released h a {a} ∅ h₁ := by
    intro h₁ hMid
    refine ⟨hMid, by simp, ?_, by simp⟩
    intro c hc hca
    exact absurd (Finset.mem_singleton.mp hc) hca
  by_cases hObject : ∃ o, h.value a = some (.object o)
  · obtain ⟨o, ho⟩ := hObject
    obtain ⟨count, fields, hLife⟩ := hGood.target a o ho
    have hLess := outside_insert hGood (Finset.notMem_empty a) ho
    have hAll : outside h ∅ o = h.holders o := by simp [outside, Heap.holders]
    have hCount := hGood.count o count fields hLife
    have hOne : ((outside h (insert a ∅) o : Nat) : Int) = count - 1 := by omega
    have hStill : outside h (insert a ∅) o ≠ 0 := by
      obtain ⟨c, hca, hc⟩ := hShared o ho
      have hMore := outside_insert hGood (show c ∉ insert a ∅ by simpa using hca) hc
      omega
    have hMid := (hGood.mid a).decrement ho .self (Or.inl rfl) hLife ∅ (fun _ hp => hp)
      (by simp) (by simp) (by simpa using hStill)
    rw [hOne, hInsert] at hMid
    refine ⟨_, hRel _ hMid, ?_, rfl, rfl, rfl⟩
    intro p
    rw [Heap.setObject_objects]
    by_cases hpo : p = o
    · subst hpo
      simp [hLife, ho]
    · have hop : ¬ o = p := fun h => hpo h.symm
      rw [if_neg hpo, ho]
      cases h.objects p <;> simp [hop]
  · have hPlain : ∀ o, h.value a ≠ some (.object o) := fun o ho => hObject ⟨o, ho⟩
    have hMid : Mid h a (insert a ∅) ∅ h := (hGood.mid a).insert_plain hPlain .self (Or.inl rfl)
      rfl rfl rfl (fun _ _ => rfl)
    rw [hInsert] at hMid
    refine ⟨h, hRel h hMid, ?_, rfl, rfl, rfl⟩
    intro o
    simp only [if_neg (hPlain o)]
    cases h.objects o <;> rfl

/-- `Variant(Variant &&)` moves the value: to the new slot it is copied, and the other slot,
which is not the last that holds it, lets go of it. -/
theorem moveConstruct_spec {owner : Option Nat} {b : Nat} {t : Slot} (hGood : Good h)
    (hOwner : ∀ p, owner = some p → h.Live p) (ht : h.slots b = some t) :
    ∃ h', moveConstruct owner b h = .ok h' ∧ Good h' ∧
      Keeps (fun c => c = h.slotCount ∨ c = b) h h' ∧ h'.value h.slotCount = some t.value ∧
      h'.value b = some .null := by
  have hbn : b ≠ h.slotCount := by
    rintro rfl
    rw [hGood.slotsEnd _ le_rfl] at ht
    cases ht
  have hLive : ∀ o, t.value = .object o → h.Live o :=
    fun o ho => hGood.target b o (by simp [Heap.value, ht, ho])
  -- First the heap `hc` in which the value has been copied.
  obtain ⟨hGood', hKeeps, hNew⟩ := withValue_spec hGood
    (show Kind.variant.takes t.value = t.value by cases t.value <;> rfl) hOwner hLive
  have hSlots' := withValue_slots .variant owner t.value h
  have hObjects' := withValue_objects .variant owner t.value h
  have hCounts' := withNull_counts .variant owner h
  obtain ⟨hc, hcEq⟩ : ∃ hc, hc = withValue .variant owner t.value h := ⟨_, rfl⟩
  have hcSlotCount : hc.slotCount = h.slotCount + 1 := by simp [hcEq, withValue, hCounts'.1]
  have hcObjectCount : hc.objectCount = h.objectCount := by simp [hcEq, withValue, hCounts'.2]
  have hcSlots : hc.slots = ((withNull .variant owner h).setSlot h.slotCount
      (some ⟨.variant, owner, t.value⟩)).slots := by simp [hcEq, withValue]
  rw [← hcEq] at hGood' hKeeps hNew hSlots' hObjects'
  have htc : hc.slots b = some t := by
    rw [hSlots', if_neg hbn]
    exact ht
  have hvn : hc.value h.slotCount = some t.value := by simp [Heap.value, hNew]
  have hvb : hc.value b = some t.value := by simp [Heap.value, htc]
  have hShared : ∀ o, hc.value b = some (.object o) → ∃ c, c ≠ b ∧ hc.value c = some (.object o) := by
    intro o ho
    exact ⟨h.slotCount, hbn.symm, by rw [hvn, ← hvb, ho]⟩
  obtain ⟨hm, hRel, hObjects, hSlots, hCounts⟩ := released_shared hGood' hShared
  let h' : Heap := hm.setSlot b (some { t with value := .null })
  have hEnds : Ends hm h' b t (some .null) := by
    refine ⟨rfl, rfl, fun c => Heap.setSlot_slots hm b c _, ?_⟩
    intro o
    rw [Heap.setSlot_objects]
    cases hm.objects o <;> simp
  obtain ⟨hGood'', hKeeps', hValue, -⟩ := hRel.finish hGood'
    (ownerStays_of_shared hShared) htc (by intro v hEq; cases hEq; cases t.kind <;> rfl)
    (by intro o hEq; cases hEq) hEnds
  have hHolders : ∀ o, 0 < hc.holders o → 0 < h.holders o := by
    intro o ho
    obtain ⟨c, hcv⟩ := (holders_pos hGood').mp ho
    apply (holders_pos hGood).mpr
    by_cases hcn : c = h.slotCount
    · subst hcn
      rw [hvn] at hcv
      exact ⟨b, by simp [Heap.value, ht, Option.some.inj hcv]⟩
    · rw [Heap.value, hSlots', if_neg hcn] at hcv
      exact ⟨c, hcv⟩
  refine ⟨h', ?_, hGood'', hKeeps.trans hKeeps' (fun o _ => hHolders o), ?_, hValue⟩
  · -- The counts of the model and of the copy that let go are the same.
    have hn : (withNull .variant owner h).slots h.slotCount = some ⟨.variant, owner, .null⟩ :=
      (withNull_slots .variant owner h _).trans (if_pos rfl)
    have hb : ((withNull .variant owner h).setSlot h.slotCount
        (some ⟨.variant, owner, t.value⟩)).slots b = some t := by
      rw [Heap.setSlot_slots, if_neg hbn, withNull_slots, if_neg hbn]
      exact ht
    have hmObjects : hm.objects = (withNull .variant owner h).objects := by
      funext o
      rw [hObjects, hObjects', withNull_objects, hvb]
      cases h.objects o with
      | live count fields => by_cases ho : t.value = .object o <;> simp [ho]
      | unborn => rfl
      | destroyed => rfl
    simp only [moveConstruct, Heap.slot_ok ht, Transition.ok_bind, newSlot_ok hOwner,
      Heap.setValue_ok hn, Heap.setValue_ok hb]
    show _ = Except.ok (hm.setSlot b _)
    simp only [Heap.setSlot, hmObjects, hSlots.trans hcSlots, hCounts.1.trans hcSlotCount,
      hCounts.2.trans hcObjectCount, hCounts'.1, hCounts'.2]
  · show (hm.setSlot b _).value h.slotCount = _
    rw [Heap.value, Heap.setSlot_slots, if_neg hbn.symm, hSlots]
    exact hvn

theorem Keeps.value {T : Nat → Prop} {h' : Heap} (hKeeps : Keeps T h h') {c : Nat} (hc : ¬ T c)
    {v : Value} (hv : h'.value c = some v) : h.value c = some v := by
  rcases hKeeps.frame c hc with hSame | ⟨hNone, -⟩
  · rw [← hv, Heap.value, Heap.value, hSame]
  · rw [Heap.value, hNone] at hv
    cases hv

/-- The assignment from the temporary does what it says. -/
def Kind.TemporarySpared (kind : Kind) (h : Heap) (a : Nat) (src : Source) : Prop :=
  ∀ h₁, construct kind none src h = .ok h₁ → kind.Spared h₁ a h.slotCount

/-- An assignment through a temporary. The temporary keeps the object alive while the slot
releases, and the slot does while the temporary ends. -/
theorem viaTemporary_spec {src : Source} {v : Value} (hGood : Good h) (hs : h.slots a = some s)
    (hv : src.value h = some v) (hLive : ∀ o, v = .object o → h.Live o)
    (hSpared : s.kind.TemporarySpared h a src) :
    ∃ h', viaTemporary s.kind s.kind.assign a src h = .ok h' ∧ Good h' ∧ Keeps (· = a) h h' ∧
      h'.value a = some (s.kind.takes v) := by
  have hNoOwner : ∀ p, (none : Option Nat) = some p → h.Live p := by
    intro p hp
    cases hp
  have hRun₁ : construct s.kind none src h = .ok (withValue s.kind none (s.kind.takes v) h) :=
    construct_ok hGood hNoOwner hv hLive
  obtain ⟨hGood₁, hKeeps₁, hTmp₁⟩ := withValue_spec hGood (takes_takes s.kind v) hNoOwner
    (fun o ho => hLive o (takes_object ho))
  have hOld := withValue_slots s.kind none (s.kind.takes v) h
  obtain ⟨h₁, hEq⟩ : ∃ h₁, h₁ = withValue s.kind none (s.kind.takes v) h := ⟨_, rfl⟩
  rw [← hEq] at hRun₁ hGood₁ hKeeps₁ hTmp₁ hOld
  have hFree : h.slots h.slotCount = none := hGood.slotsEnd _ le_rfl
  have hat : a ≠ h.slotCount := by
    rintro rfl
    rw [hs] at hFree
    cases hFree
  have hs₁ : h₁.slots a = some s := by
    rw [hOld, if_neg hat]
    exact hs
  obtain ⟨h₂, hRun₂, hGood₂, hKeeps₂, hva₂⟩ :=
    kindAssign_spec hGood₁ hs₁ hTmp₁ rfl (hSpared h₁ hRun₁)
  have hTmp₂ : h₂.slots h.slotCount = some ⟨s.kind, none, s.kind.takes v⟩ := by
    rcases hKeeps₂.frame h.slotCount hat.symm with hSame | ⟨-, p, hOwner, -⟩
    · exact hSame.trans hTmp₁
    · rw [Heap.owner, hTmp₁] at hOwner
      cases hOwner
  have hvt₂ : h₂.value h.slotCount = some (s.kind.takes v) := by simp [Heap.value, hTmp₂]
  have hShared : ∀ o, h₂.value h.slotCount = some (.object o) →
      ∃ c, c ≠ h.slotCount ∧ h₂.value c = some (.object o) := by
    intro o ho
    exact ⟨a, hat, by rw [hva₂, ← hvt₂, ho]⟩
  obtain ⟨h₃, hRun₃, hGood₃, hKeeps₃, hEnd, hKept⟩ :=
    destruct_spec hGood₂ (ownerStays_of_shared hShared) hTmp₂
  have hva₃ : h₃.value a = some (s.kind.takes v) := by
    rw [Heap.value, hKept a fun hGo => hat (letsGo_of_shared hShared hGo)]
    exact hva₂
  -- What the slot holds in the end has not been destroyed.
  have hAlive : ∀ {h' : Heap}, Good h' → h'.value a = some (s.kind.takes v) → ∀ o,
      h'.objects o = .destroyed → s.kind.takes v ≠ .object o := by
    intro h' hGood' hva o hDead hEq
    obtain ⟨count, fields, ho⟩ := hGood'.target a o (hva.trans (congrArg some hEq))
    rw [hDead] at ho
    cases ho
  have hHeld₁ : ∀ o, s.kind.takes v ≠ .object o → 0 < h₁.holders o → 0 < h.holders o := by
    intro o hNe hPos
    obtain ⟨c, hc⟩ := (holders_pos hGood₁).mp hPos
    refine (holders_pos hGood).mpr ⟨c, hKeeps₁.value ?_ hc⟩
    rintro rfl
    rw [Heap.value, hTmp₁] at hc
    exact hNe (Option.some.inj hc)
  have hKeeps₁₂ := hKeeps₁.trans hKeeps₂ (fun o hDead => hHeld₁ o (hAlive hGood₂ hva₂ o hDead))
  have hHeld₂ : ∀ o, s.kind.takes v ≠ .object o → 0 < h₂.holders o → 0 < h.holders o := by
    intro o hNe hPos
    obtain ⟨c, hc⟩ := (holders_pos hGood₂).mp hPos
    refine (holders_pos hGood).mpr ⟨c, hKeeps₁₂.value ?_ hc⟩
    rintro (rfl | rfl)
    · rw [hvt₂] at hc
      exact hNe (Option.some.inj hc)
    · rw [hva₂] at hc
      exact hNe (Option.some.inj hc)
  have hKeeps := hKeeps₁₂.trans hKeeps₃ (fun o hDead => hHeld₂ o (hAlive hGood₃ hva₃ o hDead))
  refine ⟨h₃, ?_, hGood₃, { hKeeps with frame := ?_ }, hva₃⟩
  · rw [viaTemporary, hRun₁, Transition.ok_bind, hRun₂, Transition.ok_bind, hRun₃]
  · intro c hca
    by_cases hct : c = h.slotCount
    · subst hct
      exact Or.inl (hEnd.trans hFree.symm)
    · exact hKeeps.frame c (by simp [hca, hct])

/-- When `a = src` does what it says. -/
def AssignSpared (h : Heap) (a : Nat) (src : Source) : Prop :=
  ∀ s, h.slots a = some s → match src with
    | .pointer p =>
      if s.kind = .reference then OwnerStays h a ∧ ∀ o, p = some o → ¬ Dies h a o
      else s.kind.TemporarySpared h a src
    | .slot b =>
      if (h.slots b).map (·.kind) = some s.kind then s.kind.Spared h a b
      else s.kind.TemporarySpared h a src
    | .number _ => s.kind.TemporarySpared h a src

theorem assign_pointer {p : Option Nat} (hs : h.slots a = some s) :
    assign a (.pointer p) h = if s.kind = .reference then assignPointer a p h
      else viaTemporary s.kind s.kind.assign a (.pointer p) h := by
  rw [assign, Heap.slot_ok hs, Transition.ok_bind]
  cases s.kind <;> rfl

theorem assign_slot {b : Nat} {t : Slot} (hs : h.slots a = some s) (ht : h.slots b = some t) :
    assign a (.slot b) h = if t.kind = s.kind then s.kind.assign a b h
      else viaTemporary s.kind s.kind.assign a (.slot b) h := by
  rw [assign, Heap.slot_ok hs, Transition.ok_bind]
  cases s.kind <;> cases hk : t.kind <;> simp [Heap.slot_ok ht, hk, Kind.assign]

theorem assign_number {x : Int} (hs : h.slots a = some s) :
    assign a (.number x) h = viaTemporary s.kind s.kind.assign a (.number x) h := by
  rw [assign, Heap.slot_ok hs, Transition.ok_bind]
  cases s.kind <;> rfl

theorem assign_spec {src : Source} {v : Value} (hGood : Good h) (hs : h.slots a = some s)
    (hValid : src.Valid h) (hv : src.value h = some v) (hLive : ∀ o, v = .object o → h.Live o)
    (hSpared : AssignSpared h a src) :
    ∃ h', assign a src h = .ok h' ∧ Good h' ∧ Keeps (· = a) h h' ∧
      h'.value a = some (s.kind.takes v) := by
  have hTemporary := viaTemporary_spec hGood hs hv hLive
  have hSpared := hSpared s hs
  cases src with
  | pointer p =>
    rw [assign_pointer hs]
    dsimp only at hSpared
    by_cases hk : s.kind = .reference
    · rw [if_pos hk] at hSpared ⊢
      obtain ⟨h', hRun, hGood', hKeeps, hva⟩ :=
        assignPointer_spec hGood hSpared.1 hs hValid hSpared.2
      refine ⟨h', hRun, hGood', hKeeps, hva.trans ?_⟩
      cases hv
      cases s.kind <;> cases p <;> rfl
    · rw [if_neg hk] at hSpared ⊢
      exact hTemporary hSpared
  | slot b =>
    obtain ⟨t, ht, rfl⟩ := Heap.exists_slot_of_value hv
    rw [assign_slot hs ht]
    simp only [ht, Option.map_some, Option.some.injEq] at hSpared
    by_cases hk : t.kind = s.kind
    · rw [if_pos hk] at hSpared ⊢
      have hTakes : s.kind.takes t.value = t.value := hk ▸ hGood.kind b t ht
      rw [hTakes]
      exact kindAssign_spec hGood hs ht hk hSpared
    · rw [if_neg hk] at hSpared ⊢
      exact hTemporary hSpared
  | number x =>
    rw [assign_number hs]
    exact hTemporary hSpared

end Operations

/-! ## Runs -/

inductive Op where
  | newObject
  | construct (kind : Kind) (owner : Option Nat) (src : Source)
  | moveConstruct (owner : Option Nat) (b : Nat)
  | assign (a : Nat) (src : Source)
  | clear (a : Nat)
  | destruct (a : Nat)

/-- `new`, of an object that has no fields yet. -/
def newObject (h : Heap) : Heap :=
  { h.setObject h.objectCount (.live 0 []) with objectCount := h.objectCount + 1 }

def perform : Op → Heap → Except Fault Heap
  | .newObject, h => pure (newObject h)
  | .construct kind owner src, h => construct kind owner src h
  | .moveConstruct owner b, h => moveConstruct owner b h
  | .assign a src, h => assign a src h
  | .clear a, h => clear a h
  | .destruct a, h => destruct a h

/-- A state of a run: the heap, and which objects a slot has held so far. -/
structure State where
  heap : Heap
  everHeld : Nat → Bool

def start : State := ⟨⟨fun _ => .unborn, 0, fun _ => none, 0⟩, fun _ => false⟩

def next (s : State) (op : Op) : Except Fault State := do
  let h ← perform op s.heap
  pure ⟨h, fun o => s.everHeld o || decide (0 < h.holders o)⟩

/-- What a program may do: use slots and objects that live. -/
def Allowed (h : Heap) : Op → Prop
  | .newObject => True
  | .construct _ owner src => (∀ p, owner = some p → h.Live p) ∧ src.Valid h
  | .moveConstruct owner b => (∀ p, owner = some p → h.Live p) ∧
      (h.slots b).map (·.kind) = some .variant
  | .assign a src => h.slots a ≠ none ∧ src.Valid h
  | .clear a => (h.slots a).map (·.kind) = some .reference
  | .destruct a => h.slots a ≠ none

/-- The operation does not meet the release before the retain. -/
def Spared (h : Heap) : Op → Prop
  | .assign a src => AssignSpared h a src
  | .clear a => OwnerStays h a
  | .destruct a => OwnerStays h a
  | _ => True

/-- What is claimed of every state. -/
structure Sound (s : State) : Prop where
  /-- The count of a live object is the number of slots that hold it. -/
  count : ∀ o count fields, s.heap.objects o = .live count fields → count = s.heap.holders o
  /-- An object is destroyed exactly when its last slot has let go of it. -/
  destroyed : ∀ o, s.heap.objects o = .destroyed ↔ s.everHeld o = true ∧ s.heap.holders o = 0
  /-- What a slot holds lives, and so does what owns it. -/
  target : ∀ a o, s.heap.value a = some (.object o) → s.heap.Live o
  owner : ∀ a p, s.heap.owner a = some p → s.heap.Live p

/-- Every other slot keeps its value, or ends with the object that owns it. -/
def Untouched (T : Nat → Prop) (h h' : Heap) : Prop :=
  ∀ c, ¬ T c → h'.slots c = h.slots c ∨
    h'.slots c = none ∧ ∃ p, h.owner c = some p ∧ h'.objects p = .destroyed

/-- What is claimed of an operation: the slot it is about holds the value it was given, a
`Reference` no number. -/
def Effect (h : Heap) (op : Op) (h' : Heap) : Prop :=
  match op with
  | .newObject => h'.slots = h.slots
  | .construct kind _ src =>
    h'.value h.slotCount = (src.value h).map kind.takes ∧ Untouched (· = h.slotCount) h h'
  | .moveConstruct _ b => h'.value h.slotCount = h.value b ∧ h'.value b = some .null ∧
      Untouched (fun c => c = h.slotCount ∨ c = b) h h'
  | .assign a src => (∀ s, h.slots a = some s → h'.value a = (src.value h).map s.kind.takes) ∧
      Untouched (· = a) h h'
  | .clear a => h'.value a = some .null ∧ Untouched (· = a) h h'
  | .destruct a => h'.slots a = none ∧ Untouched (· = a) h h'

/-- The invariant of a run. -/
structure GoodState (s : State) : Prop where
  good : Good s.heap
  held : ∀ o, 0 < s.heap.holders o → s.everHeld o = true
  destroyed : ∀ o, s.heap.objects o = .destroyed ↔ s.everHeld o = true ∧ s.heap.holders o = 0

theorem start_good : GoodState start := by
  have hZero : ∀ o, start.heap.holders o = 0 := fun _ => rfl
  refine ⟨⟨fun _ _ => rfl, fun _ _ => rfl, ?_, ?_, ?_, ?_, ?_⟩, ?_, ?_⟩
  · intro o count fields ho
    cases ho
  · intro a o ha
    cases ha
  · intro a p ha
    cases ha
  · intro p count fields hp
    cases hp
  · intro a s hs
    cases hs
  · intro o ho
    rw [hZero] at ho
    omega
  · intro o
    constructor
    · intro ho
      cases ho
    · rintro ⟨ho, -⟩
      cases ho

theorem GoodState.sound {s : State} (h : GoodState s) : Sound s := by
  refine ⟨h.good.count, h.destroyed, h.good.target, ?_⟩
  intro a p ha
  obtain ⟨count, fields, hp, -⟩ := h.good.owner a p ha
  exact ⟨count, fields, hp⟩

/-- An operation that keeps what it does not touch keeps the invariant. -/
theorem GoodState.keeps {s : State} {T : Nat → Prop} {h' : Heap} (h : GoodState s) (hGood : Good h')
    (hKeeps : Keeps T s.heap h') :
    GoodState ⟨h', fun o => s.everHeld o || decide (0 < h'.holders o)⟩ := by
  refine ⟨hGood, fun o ho => by simp [ho], ?_⟩
  intro o
  simp only [Bool.or_eq_true, decide_eq_true_eq]
  constructor
  · intro hDead
    have hNone : h'.holders o = 0 := by
      by_contra hPos
      obtain ⟨c, hc⟩ := (holders_pos hGood).mp (Nat.pos_of_ne_zero hPos)
      obtain ⟨count, fields, ho⟩ := hGood.target c o hc
      rw [hDead] at ho
      cases ho
    refine ⟨Or.inl ?_, hNone⟩
    rcases hKeeps.dies o hDead with hOld | hPos
    · exact ((h.destroyed o).mp hOld).1
    · exact h.held o hPos
  · rintro ⟨hEver | hPos, hNone⟩
    · by_cases hZero : s.heap.holders o = 0
      · exact hKeeps.destroyed o ((h.destroyed o).mpr ⟨hEver, hZero⟩)
      · -- It was held before the operation and is not any more.
        obtain ⟨c, hc⟩ := (holders_pos h.good).mp (Nat.pos_of_ne_zero hZero)
        rcases hKeeps.live o (h.good.target c o hc) with hLive | hDead
        · exact absurd (hKeeps.zero o hLive hNone) hZero
        · exact hDead
    · omega

theorem newObject_good {s : State} (h : GoodState s) :
    GoodState ⟨newObject s.heap,
      fun o => s.everHeld o || decide (0 < (newObject s.heap).holders o)⟩ := by
  have hGood := h.good
  have hUnborn := hGood.objectsEnd _ le_rfl
  have hHolders : ∀ o, (newObject s.heap).holders o = s.heap.holders o := fun _ => rfl
  have hNone : s.heap.holders s.heap.objectCount = 0 := by
    by_contra hPos
    obtain ⟨c, hc⟩ := (holders_pos hGood).mp (Nat.pos_of_ne_zero hPos)
    obtain ⟨count, fields, ho⟩ := hGood.target c _ hc
    rw [hUnborn] at ho
    cases ho
  have hObjects : ∀ o, (newObject s.heap).objects o =
      if o = s.heap.objectCount then .live 0 [] else s.heap.objects o :=
    fun o => Heap.setObject_objects s.heap _ o _
  have hOld : ∀ o x, x ≠ .unborn → s.heap.objects o = x → (newObject s.heap).objects o = x := by
    intro o x hx ho
    rw [hObjects, if_neg ?_]
    · exact ho
    · rintro rfl
      exact hx (ho.symm.trans hUnborn)
  refine ⟨⟨?_, hGood.slotsEnd, ?_, ?_, ?_, ?_, hGood.kind⟩, ?_, ?_⟩
  · intro o ho
    have ho : s.heap.objectCount + 1 ≤ o := ho
    rw [hObjects, if_neg (by omega)]
    exact hGood.objectsEnd o (by omega)
  · intro o count fields ho
    rw [hObjects] at ho
    split at ho
    · rename_i hEq
      cases ho
      rw [hHolders, hEq, hNone]
      rfl
    · exact hGood.count o count fields ho
  · intro a o ha
    obtain ⟨count, fields, ho⟩ := hGood.target a o ha
    exact ⟨count, fields, hOld o _ (by simp) ho⟩
  · intro a p ha
    obtain ⟨count, fields, hp, hMem⟩ := hGood.owner a p ha
    exact ⟨count, fields, hOld p _ (by simp) hp, hMem⟩
  · intro p count fields hp
    rw [hObjects] at hp
    split at hp
    · cases hp
      simp
    · exact hGood.fields p count fields hp
  · intro o ho
    simp [ho]
  · intro o
    rw [hHolders]
    have hEver : (s.everHeld o || decide (0 < s.heap.holders o)) = s.everHeld o := by
      cases hE : s.everHeld o with
      | true => rfl
      | false =>
        have hNot : ¬ 0 < s.heap.holders o := fun hPos => by
          rw [h.held o hPos] at hE
          cases hE
        simp [hNot]
    show (newObject s.heap).objects o = .destroyed ↔ _
    simp only [hHolders, hEver]
    rw [← h.destroyed, hObjects]
    split
    · rename_i hEq
      rw [hEq, hUnborn]
      simp
    · rfl

/-- One operation that is allowed and spared. -/
theorem next_spec {s : State} {op : Op} (h : GoodState s) (hAllowed : Allowed s.heap op)
    (hSpared : Spared s.heap op) :
    ∃ t, next s op = .ok t ∧ GoodState t ∧ Effect s.heap op t.heap := by
  have hNext : ∀ {h' : Heap}, perform op s.heap = .ok h' →
      next s op = .ok ⟨h', fun o => s.everHeld o || decide (0 < h'.holders o)⟩ := by
    intro h' hRun
    rw [next, hRun]
    rfl
  have hGood := h.good
  cases op with
  | newObject => exact ⟨_, hNext rfl, newObject_good h, rfl⟩
  | construct kind owner src =>
    obtain ⟨hOwner, hValid⟩ := hAllowed
    obtain ⟨v, hv, hLive⟩ := hValid.value hGood
    obtain ⟨hGood', hKeeps, hSlot⟩ := withValue_spec hGood (takes_takes kind v) hOwner
      (fun o ho => hLive o (takes_object ho))
    refine ⟨_, hNext (construct_ok hGood hOwner hv hLive), h.keeps hGood' hKeeps, ?_, hKeeps.frame⟩
    rw [hv]
    simp [Heap.value, hSlot]
  | moveConstruct owner b =>
    obtain ⟨hOwner, hKind⟩ := hAllowed
    obtain ⟨t, ht, -⟩ := Option.map_eq_some_iff.mp hKind
    obtain ⟨h', hRun, hGood', hKeeps, hNew, hOld⟩ := moveConstruct_spec hGood hOwner ht
    refine ⟨_, hNext hRun, h.keeps hGood' hKeeps, hNew.trans ?_, hOld, hKeeps.frame⟩
    simp [Heap.value, ht]
  | assign a src =>
    obtain ⟨ha, hValid⟩ := hAllowed
    obtain ⟨t, ht⟩ := Option.ne_none_iff_exists'.mp ha
    obtain ⟨v, hv, hLive⟩ := hValid.value hGood
    obtain ⟨h', hRun, hGood', hKeeps, hva⟩ := assign_spec hGood ht hValid hv hLive hSpared
    refine ⟨_, hNext hRun, h.keeps hGood' hKeeps, ?_, hKeeps.frame⟩
    intro t' ht'
    rw [ht] at ht'
    cases ht'
    rw [hv]
    exact hva
  | clear a =>
    obtain ⟨t, ht, -⟩ := Option.map_eq_some_iff.mp hAllowed
    obtain ⟨h', hRun, hGood', hKeeps, hva⟩ := clear_spec hGood hSpared ht
    exact ⟨_, hNext hRun, h.keeps hGood' hKeeps, hva, hKeeps.frame⟩
  | destruct a =>
    obtain ⟨t, ht⟩ := Option.ne_none_iff_exists'.mp hAllowed
    obtain ⟨h', hRun, hGood', hKeeps, hEnd, -⟩ := destruct_spec hGood hSpared ht
    exact ⟨_, hNext hRun, h.keeps hGood' hKeeps, hEnd, hKeeps.frame⟩

/-- In every run whose operations are allowed and spared, every state is sound and every
operation has its effect. -/
theorem reference_counting (ops : List Op) (op : Op)
    (hLegal : Transition.Legal (fun s op => Allowed s.heap op ∧ Spared s.heap op) next start
      (ops ++ [op])) :
    ∃ s t, Transition.run next start ops = .ok s ∧ next s op = .ok t ∧ Sound s ∧ Sound t ∧
      Effect s.heap op t.heap := by
  obtain ⟨hBefore, hLast⟩ := hLegal.append
  obtain ⟨s, hRun, hGood⟩ := Transition.run_legal (I := GoodState)
    (fun s op hs hOp => by
      obtain ⟨t, hNext, ht, -⟩ := next_spec hs hOp.1 hOp.2
      exact ⟨t, hNext, ht⟩) start_good hBefore
  obtain ⟨hAllowed, hSpared⟩ := (hLast s hRun).1
  obtain ⟨t, hNext, ht, hEffect⟩ := next_spec hGood hAllowed hSpared
  exact ⟨s, t, hRun, hNext, hGood.sound, ht.sound, hEffect⟩

/-- A `Reference` is assigned to itself and then set to null. -/
theorem reference_counting_cleared :
    let ops : List Op := [.newObject, .construct .reference none (.pointer (some 0)),
      .assign 0 (.slot 0)]
    let op : Op := .assign 0 (.pointer none)
    Transition.Legal (fun s op => Allowed s.heap op ∧ Spared s.heap op) next start (ops ++ [op]) ∧
      ∃ s t, Transition.run next start ops = .ok s ∧ next s op = .ok t ∧ Sound s ∧ Sound t ∧
        Effect s.heap op t.heap := by
  intro ops op
  have hLegal : Transition.Legal (fun s op => Allowed s.heap op ∧ Spared s.heap op) next start
      (ops ++ [op]) := by
    refine ⟨⟨trivial, trivial⟩, ?_⟩
    intro t₁ hRun
    cases hRun
    refine ⟨⟨⟨(by intro p hEq; cases hEq), by intro o hEq; cases hEq; exact ⟨_, _, rfl⟩⟩, trivial⟩, ?_⟩
    intro t₂ hRun
    cases hRun
    refine ⟨⟨⟨Option.some_ne_none _, Option.some_ne_none _⟩, ?_⟩, ?_⟩
    · rintro s ⟨⟩ hNe
      exact absurd rfl hNe
    intro t₃ hRun
    cases hRun
    refine ⟨⟨⟨Option.some_ne_none _, by intro o hEq; cases hEq⟩, ?_⟩, fun _ _ => trivial⟩
    intro s hRun
    cases hRun
    exact ⟨(by intro p hEq; cases hEq), by intro o hEq; cases hEq⟩
  exact ⟨hLegal, reference_counting ops op hLegal⟩

/-- Without the condition: `v = v` for a `Variant` that is the only holder of an object
destroys the object and leaves `v` without a value. -/
theorem variant_self_assignment :
    ¬ ∀ (ops : List Op) (op : Op),
      Transition.Legal (fun s op => Allowed s.heap op) next start (ops ++ [op]) →
      ∃ s t, Transition.run next start ops = .ok s ∧ next s op = .ok t ∧ Sound s ∧ Sound t ∧
        Effect s.heap op t.heap := by
  intro h
  have hLegal : Transition.Legal (fun s op => Allowed s.heap op) next start
      ([.newObject, .construct .variant none (.pointer (some 0))] ++ [.assign 0 (.slot 0)]) := by
    refine ⟨trivial, ?_⟩
    intro t₁ hRun
    cases hRun
    refine ⟨⟨(by intro p hEq; cases hEq), by intro o hEq; cases hEq; exact ⟨_, _, rfl⟩⟩, ?_⟩
    intro t₂ hRun
    cases hRun
    exact ⟨⟨Option.some_ne_none _, Option.some_ne_none _⟩, fun _ _ => trivial⟩
  obtain ⟨s, t, ⟨⟩, ⟨⟩, -, -, hValue, -⟩ := h _ _ hLegal
  cases hValue _ rfl

end RetroConfig.Reference
