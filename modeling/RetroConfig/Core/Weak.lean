import RetroConfig.Library.Transition
import Mathlib.Logic.Function.Basic
import Mathlib.Data.List.Nodup

/-!
# `Weak`

A `Weak` of `gcore/core/Reference.h` holds a plain pointer. When it is set to an object
(`touch`), a callback bound to the `Weak` is added to the callbacks that the object calls
from its destructor (`EVENT_DESTROY`); the callback sets the pointer to null
(`onDelete`). Before a `Weak` is set again or destroyed, `untouch` removes this callback.

Objects, `Weak` slots and callbacks are numbered. An object is never numbered like an
earlier one; the number of a slot is its address and may be used again. Using an object
or a slot that is not alive is a failure, and so is taking a mutex twice.

`Tracks` relates slots and callback lists; `untouch` takes one slot out of the relation
and `touch` brings it back.
-/

namespace RetroConfig.Weak

/-- A callback made by `touch`, and the `Weak` that `bind` captured in it. -/
structure Callback where
  id : Nat
  slot : Nat
  deriving DecidableEq, Repr

/-- An object, with the callbacks of its `EVENT_DESTROY` while it is alive. -/
inductive Life where
  | unborn
  | live (destroy : List Callback)
  | destroyed

/-- The members of `Weak`, its mutex aside. -/
structure Slot where
  ptr : Option Nat
  onDelete : Option Callback

structure Memory where
  objects : Nat → Life
  slots : Nat → Option Slot
  held : Nat → Bool
  callbacks : Nat

inductive Fault where
  | deadObject
  | deadWeak
  | relock
  deriving DecidableEq, Repr

def Memory.setObject (m : Memory) (o : Nat) (x : Life) : Memory :=
  { m with objects := Function.update m.objects o x }

def Memory.setSlot (m : Memory) (w : Nat) (s : Option Slot) : Memory :=
  { m with slots := Function.update m.slots w s }

def Memory.slot (m : Memory) (w : Nat) : Except Fault Slot :=
  match m.slots w with
  | some s => .ok s
  | none => .error .deadWeak

/-- `Object::on(EVENT_DESTROY, cb)`. -/
def on (o : Nat) (cb : Callback) (m : Memory) : Except Fault Memory :=
  match m.objects o with
  | .live l => .ok (m.setObject o (.live (l ++ [cb])))
  | _ => .error .deadObject

/-- `Object::off(EVENT_DESTROY, cb)`: `std::list::remove`, which compares pointers. -/
def off (o : Nat) (cb : Option Callback) (m : Memory) : Except Fault Memory :=
  match m.objects o with
  | .live l => .ok (m.setObject o (.live (l.filter (fun c => some c.id ≠ cb.map (·.id)))))
  | _ => .error .deadObject

/-- `Weak::untouch`. -/
def untouch (w : Nat) (m : Memory) : Except Fault Memory := do
  let s ← m.slot w
  match s.ptr with
  | some o => off o s.onDelete m
  | none => pure m

/-- `Weak::touch`. -/
def touch (w : Nat) (m : Memory) : Except Fault Memory := do
  let s ← m.slot w
  match s.ptr with
  | some o =>
    let cb : Callback := ⟨m.callbacks, w⟩
    on o cb { m.setSlot w (some { s with onDelete := some cb }) with callbacks := m.callbacks + 1 }
  | none => pure m

def lock (w : Nat) (m : Memory) : Except Fault Memory :=
  if m.held w then .error .relock else .ok { m with held := Function.update m.held w true }

def unlock (w : Nat) (m : Memory) : Memory := { m with held := Function.update m.held w false }

/-- `Weak::onDelete`. -/
def onDelete (w : Nat) (m : Memory) : Except Fault Memory := do
  let s ← m.slot w
  let m ← lock w m
  pure (unlock w (m.setSlot w (some { s with ptr := none })))

/-- What a `Weak` is set from: an `Object *`, given or taken out of a `Reference`, or
another `Weak`. -/
inductive Source where
  | pointer (p : Option Nat)
  | weak (v : Nat)

def Source.read (src : Source) (m : Memory) : Except Fault (Option Nat) :=
  match src with
  | .pointer p => pure p
  | .weak v => do
    let s ← m.slot v
    pure s.ptr

/-- The constructors of `Weak`; the one without an argument is the null pointer. -/
def construct (w : Nat) (src : Source) (m : Memory) : Except Fault Memory := do
  let p ← src.read m
  let m := unlock w (m.setSlot w (some ⟨p, none⟩))
  let m ← lock w m
  let m ← touch w m
  pure (unlock w m)

/-- The three `Weak::operator=`. -/
def assign (w : Nat) (src : Source) (m : Memory) : Except Fault Memory := do
  let m ← lock w m
  let m ← untouch w m
  let p ← src.read m
  let s ← m.slot w
  let m ← touch w (m.setSlot w (some { s with ptr := p }))
  pure (unlock w m)

/-- `Weak::~Weak`. -/
def destruct (w : Nat) (m : Memory) : Except Fault Memory := do
  let m ← untouch w m
  pure (m.setSlot w none)

/-- `Object::~Object`: `trigger(EVENT_DESTROY)`, then the end of the event manager. -/
def destroy (o : Nat) (m : Memory) : Except Fault Memory :=
  match m.objects o with
  | .live l => do
    let m ← l.foldlM (fun m cb => onDelete cb.slot m) m
    pure (m.setObject o .destroyed)
  | _ => .error .deadObject

/-! ## Runs -/

inductive Op where
  | newObject (o : Nat)
  | construct (w : Nat) (src : Source)
  | assign (w : Nat) (src : Source)
  | destruct (w : Nat)
  | destroy (o : Nat)

/-- A state of a run: the memory, and for each slot what it was last set to. -/
structure State where
  memory : Memory
  lastSet : Nat → Option Nat

def start : State := ⟨⟨fun _ => .unborn, fun _ => none, fun _ => false, 0⟩, fun _ => none⟩

/-- One operation. What a slot is set to is what its source holds when it is read. -/
def next (s : State) : Op → Except Fault State
  | .newObject o => pure { s with memory := s.memory.setObject o (.live []) }
  | .construct w src => do
    let p ← src.read s.memory
    let m ← construct w src s.memory
    pure ⟨m, Function.update s.lastSet w p⟩
  | .assign w src => do
    let p ← src.read s.memory
    let m ← assign w src s.memory
    pure ⟨m, Function.update s.lastSet w p⟩
  | .destruct w => do
    let m ← destruct w s.memory
    pure { s with memory := m }
  | .destroy o => do
    let m ← destroy o s.memory
    pure { s with memory := m }

def Memory.Live (m : Memory) (o : Nat) : Prop := ∃ l, m.objects o = .live l

/-- A pointer handed over is null or points to a live object, a `Weak` handed over lives. -/
def Source.Valid (src : Source) (m : Memory) : Prop :=
  match src with
  | .pointer p => ∀ o, p = some o → m.Live o
  | .weak v => m.slots v ≠ none

/-- What a program may do: make a slot where none is, use and destroy what lives. -/
def Allowed (s : State) : Op → Prop
  | .newObject o => s.memory.objects o = .unborn
  | .construct w src => s.memory.slots w = none ∧ src.Valid s.memory
  | .assign w src => s.memory.slots w ≠ none ∧ src.Valid s.memory
  | .destruct w => s.memory.slots w ≠ none
  | .destroy o => s.memory.Live o

/-- The object a slot holds. -/
def Memory.holds (m : Memory) (w : Nat) : Option Nat := (m.slots w).bind (·.ptr)

/-- What is claimed of every state. -/
structure Safe (s : State) : Prop where
  /-- A slot holds null or an object that has not been destroyed. -/
  live : ∀ w o, s.memory.holds w = some o → s.memory.Live o
  /-- It holds null once the object it was last set to is destroyed. -/
  null : ∀ w o, s.lastSet w = some o → s.memory.objects o = .destroyed → s.memory.holds w = none
  /-- Until then it holds that object. -/
  kept : ∀ w o, s.memory.slots w ≠ none → s.lastSet w = some o → s.memory.objects o ≠ .destroyed →
    s.memory.holds w = some o
  /-- A live object has one callback for each slot that holds it, and no other. -/
  callbacks : ∀ o l, s.memory.objects o = .live l → ∀ w,
    l.countP (fun cb => cb.slot = w) = if s.memory.holds w = some o then 1 else 0

/-! ## Slots and their callbacks -/

/-- The slots in `P` that hold an object have their callback in its list, and every
callback in a list is that of a slot in `P`. -/
structure Tracks (P : Nat → Prop) (m : Memory) : Prop where
  holds : ∀ w s o, P w → m.slots w = some s → s.ptr = some o →
    ∃ l cb, m.objects o = .live l ∧ s.onDelete = some cb ∧ cb.slot = w ∧ cb ∈ l
  callbacks : ∀ o l cb, m.objects o = .live l → cb ∈ l →
    P cb.slot ∧ ∃ s, m.slots cb.slot = some s ∧ s.ptr = some o ∧ s.onDelete = some cb
  nodup : ∀ o l, m.objects o = .live l → (l.map (·.id)).Nodup
  fresh : ∀ o l cb, m.objects o = .live l → cb ∈ l → cb.id < m.callbacks

/-- Every object is unborn, live or destroyed as before. -/
def SameLife (m m' : Memory) : Prop :=
  ∀ o, (m'.Live o ↔ m.Live o) ∧ (m'.objects o = .destroyed ↔ m.objects o = .destroyed)

theorem SameLife.refl (m : Memory) : SameLife m m := fun _ => ⟨Iff.rfl, Iff.rfl⟩

theorem SameLife.trans {m m' m'' : Memory} (h : SameLife m m') (h' : SameLife m' m'') :
    SameLife m m'' :=
  fun o => ⟨(h' o).1.trans (h o).1, (h' o).2.trans (h o).2⟩

@[simp] theorem setObject_slots (m : Memory) (o : Nat) (x : Life) :
    (m.setObject o x).slots = m.slots := rfl

@[simp] theorem setObject_callbacks (m : Memory) (o : Nat) (x : Life) :
    (m.setObject o x).callbacks = m.callbacks := rfl

@[simp] theorem setSlot_objects (m : Memory) (w : Nat) (s : Option Slot) :
    (m.setSlot w s).objects = m.objects := rfl

theorem setObject_objects (m : Memory) (o p : Nat) (x : Life) :
    (m.setObject o x).objects p = if p = o then x else m.objects p :=
  Function.update_apply m.objects o x p

theorem setSlot_slots (m : Memory) (w v : Nat) (s : Option Slot) :
    (m.setSlot w s).slots v = if v = w then s else m.slots v :=
  Function.update_apply m.slots w s v

theorem slot_ok {m : Memory} {w : Nat} {s : Slot} (h : m.slots w = some s) :
    m.slot w = .ok s := by
  simp [Memory.slot, h]

theorem sameLife_setObject {m : Memory} {o : Nat} {l l' : List Callback}
    (h : m.objects o = .live l) : SameLife m (m.setObject o (.live l')) := by
  intro p
  unfold Memory.Live
  rw [setObject_objects]
  by_cases hp : p = o
  · subst hp
    simp [h]
  · simp [hp]

/-- The relation does not look at the mutexes. -/
theorem Tracks.of_eq {P : Nat → Prop} {m m' : Memory} (h : Tracks P m)
    (hObjects : m'.objects = m.objects) (hSlots : m'.slots = m.slots)
    (hCallbacks : m'.callbacks = m.callbacks) : Tracks P m' := by
  obtain ⟨objects, slots, held, callbacks⟩ := m'
  subst hObjects hSlots hCallbacks
  exact ⟨h.holds, h.callbacks, h.nodup, h.fresh⟩

/-- A slot outside of the relation may be changed. -/
theorem Tracks.setSlot {w : Nat} {m : Memory} (h : Tracks (· ≠ w) m) (s : Option Slot) :
    Tracks (· ≠ w) (m.setSlot w s) := by
  refine ⟨?_, ?_, h.nodup, h.fresh⟩
  · intro v t o hv ht
    rw [setSlot_slots, if_neg hv] at ht
    exact h.holds v t o hv ht
  · intro o l cb hl hcb
    obtain ⟨hv, hSlot⟩ := h.callbacks o l cb hl hcb
    refine ⟨hv, ?_⟩
    rw [setSlot_slots, if_neg hv]
    exact hSlot

/-- A slot that holds nothing may be counted to the relation. -/
theorem Tracks.univ {w : Nat} {m : Memory} (h : Tracks (· ≠ w) m) (hNull : m.holds w = none) :
    Tracks (fun _ => True) m := by
  refine ⟨?_, ?_, h.nodup, h.fresh⟩
  · intro v s o _ hs ho
    refine h.holds v s o ?_ hs ho
    rintro rfl
    simp [Memory.holds, hs, ho] at hNull
  · intro o l cb hl hcb
    exact ⟨trivial, (h.callbacks o l cb hl hcb).2⟩

/-- `untouch` takes the callback of a slot out of the list it is in. -/
theorem untouch_spec {w : Nat} {m : Memory} {s : Slot} (h : Tracks (fun _ => True) m)
    (hs : m.slots w = some s) :
    ∃ m', untouch w m = .ok m' ∧ Tracks (· ≠ w) m' ∧ SameLife m m' ∧ m'.slots = m.slots ∧
      m'.held = m.held := by
  have hRun : untouch w m = match s.ptr with
      | some o => off o s.onDelete m
      | none => .ok m := by
    unfold untouch
    rw [slot_ok hs]
    rfl
  rw [hRun]
  cases hp : s.ptr with
  | none =>
    refine ⟨m, rfl, ⟨?_, ?_, h.nodup, h.fresh⟩, SameLife.refl m, rfl, rfl⟩
    · exact fun v t o _ => h.holds v t o trivial
    · intro o l cb hl hcb
      obtain ⟨-, t, ht, hto, hcb'⟩ := h.callbacks o l cb hl hcb
      refine ⟨?_, t, ht, hto, hcb'⟩
      intro hw
      rw [hw, hs] at ht
      cases ht
      rw [hp] at hto
      cases hto
  | some o =>
    obtain ⟨l, cb, hl, hcb, hw, hMem⟩ := h.holds w s o trivial hs hp
    -- In the list of `o` only the callback of `w` has its number.
    have hOnly : ∀ c ∈ l, c.id = cb.id → c = cb :=
      fun c hc hid => List.inj_on_of_nodup_map (h.nodup o l hl) hc hMem hid
    have hOff : off o s.onDelete m =
        .ok (m.setObject o (.live (l.filter (fun c => some c.id ≠ some cb.id)))) := by
      simp [off, hl, hcb]
    refine ⟨_, hOff, ⟨?_, ?_, ?_, ?_⟩, sameLife_setObject hl, rfl, rfl⟩
    · intro v t p hv ht hto
      obtain ⟨l', c, hl', hc, hcv, hcMem⟩ := h.holds v t p trivial ht hto
      rw [setObject_objects]
      by_cases hpo : p = o
      · subst hpo
        rw [hl] at hl'
        cases hl'
        refine ⟨_, c, if_pos rfl, hc, hcv, List.mem_filter.mpr ⟨hcMem, ?_⟩⟩
        simp only [ne_eq, Option.some.injEq, decide_eq_true_eq]
        intro hid
        rw [hOnly c hcMem hid] at hcv
        exact hv (hcv.symm.trans hw)
      · exact ⟨l', c, by rw [if_neg hpo]; exact hl', hc, hcv, hcMem⟩
    · intro p l' c hl' hc
      rw [setObject_objects] at hl'
      split at hl'
      · rename_i hpo
        cases hl'
        obtain ⟨hcMem, hid⟩ := List.mem_filter.mp hc
        obtain ⟨-, t, ht, hto, hct⟩ := h.callbacks o l c hl hcMem
        refine ⟨?_, t, ht, by rw [hpo]; exact hto, hct⟩
        intro hcw
        rw [hcw, hs] at ht
        cases ht
        rw [hcb] at hct
        cases hct
        simp at hid
      · rename_i hpo
        obtain ⟨-, t, ht, hto, hct⟩ := h.callbacks p l' c hl' hc
        refine ⟨?_, t, ht, hto, hct⟩
        intro hcw
        rw [hcw, hs] at ht
        cases ht
        rw [hp] at hto
        exact hpo (Option.some.inj hto).symm
    · intro p l' hl'
      rw [setObject_objects] at hl'
      split at hl'
      · cases hl'
        exact (h.nodup o l hl).sublist (List.filter_sublist.map _)
      · exact h.nodup p l' hl'
    · intro p l' c hl' hc
      rw [setObject_objects] at hl'
      split at hl'
      · cases hl'
        exact h.fresh o l c hl (List.mem_filter.mp hc).1
      · exact h.fresh p l' c hl' hc

/-- `touch` adds a new callback to the list of the object the slot holds. -/
theorem touch_spec {w : Nat} {m : Memory} {s : Slot} (h : Tracks (· ≠ w) m)
    (hs : m.slots w = some s) (hLive : ∀ o, s.ptr = some o → m.Live o) :
    ∃ m' s', touch w m = .ok m' ∧ Tracks (fun _ => True) m' ∧ SameLife m m' ∧
      m'.slots w = some s' ∧ s'.ptr = s.ptr ∧ (∀ v, v ≠ w → m'.slots v = m.slots v) ∧
      m'.held = m.held := by
  let cb : Callback := ⟨m.callbacks, w⟩
  obtain ⟨ptr, old⟩ := s
  let m₁ : Memory := { m.setSlot w (some ⟨ptr, some cb⟩) with callbacks := m.callbacks + 1 }
  have hRun : touch w m = Option.elim ptr (.ok m) (fun o => on o cb m₁) := by
    unfold touch
    rw [slot_ok hs]
    cases ptr <;> rfl
  rw [hRun]
  cases ptr with
  | none =>
    refine ⟨m, _, rfl, h.univ ?_, SameLife.refl m, hs, rfl, fun _ _ => rfl, rfl⟩
    simp [Memory.holds, hs]
  | some o =>
    obtain ⟨l, hl⟩ := hLive o rfl
    have hSlots : ∀ v, m₁.slots v = if v = w then some ⟨some o, some cb⟩ else m.slots v :=
      fun v => setSlot_slots m w v _
    have hObjects : ∀ p, (m₁.setObject o (.live (l ++ [cb]))).objects p =
        if p = o then .live (l ++ [cb]) else m.objects p := fun p => setObject_objects m₁ o p _
    have hOn : on o cb m₁ = .ok (m₁.setObject o (.live (l ++ [cb]))) := by
      have hl₁ : m₁.objects o = .live l := hl
      simp only [on, hl₁]
    refine ⟨_, ⟨some o, some cb⟩, hOn, ⟨?_, ?_, ?_, ?_⟩, sameLife_setObject (m := m₁) hl, ?_, rfl,
      ?_, rfl⟩
    · intro v t p _ ht hto
      rw [setObject_slots, hSlots] at ht
      rw [hObjects]
      by_cases hv : v = w
      · rw [if_pos hv, Option.some.injEq] at ht
        subst ht
        have hpo : p = o := (Option.some.inj hto).symm
        exact ⟨_, cb, if_pos hpo, rfl, hv.symm, List.mem_append_right _ List.mem_cons_self⟩
      · rw [if_neg hv] at ht
        obtain ⟨l', c, hl', hc, hcv, hMem⟩ := h.holds v t p hv ht hto
        by_cases hpo : p = o
        · subst hpo
          rw [hl] at hl'
          cases hl'
          exact ⟨_, c, if_pos rfl, hc, hcv, List.mem_append_left _ hMem⟩
        · exact ⟨l', c, (if_neg hpo).trans hl', hc, hcv, hMem⟩
    · intro p l' c hl' hc
      refine ⟨trivial, ?_⟩
      rw [setObject_slots, hSlots]
      rw [hObjects] at hl'
      have hOld : ∀ l', m.objects p = .live l' → c ∈ l' → ∃ t,
          (if c.slot = w then some ⟨some o, some cb⟩ else m.slots c.slot) = some t ∧
            t.ptr = some p ∧ t.onDelete = some c := by
        intro l' hl' hc
        obtain ⟨hv, hSlot⟩ := h.callbacks p l' c hl' hc
        rw [if_neg hv]
        exact hSlot
      split at hl'
      · rename_i hpo
        cases hl'
        rcases List.mem_append.mp hc with hc | hc
        · exact hOld l (hpo ▸ hl) hc
        · rw [List.mem_singleton] at hc
          subst hc
          exact ⟨_, if_pos rfl, by rw [hpo], rfl⟩
      · exact hOld l' hl' hc
    · intro p l' hl'
      rw [hObjects] at hl'
      split at hl'
      · cases hl'
        rw [List.map_append, List.nodup_append]
        refine ⟨h.nodup o l hl, List.nodup_singleton _, ?_⟩
        intro i hi j hj
        obtain ⟨c, hc, rfl⟩ := List.mem_map.mp hi
        have hFresh := h.fresh o l c hl hc
        have hj : j = m.callbacks := List.mem_singleton.mp hj
        omega
      · exact h.nodup p l' hl'
    · intro p l' c hl' hc
      rw [hObjects] at hl'
      show c.id < m.callbacks + 1
      split at hl'
      · cases hl'
        rcases List.mem_append.mp hc with hc | hc
        · have := h.fresh o l c hl hc
          omega
        · rw [List.mem_singleton] at hc
          subst hc
          exact Nat.lt_succ_self _
      · have := h.fresh p l' c hl' hc
        omega
    · exact (hSlots w).trans (if_pos rfl)
    · intro v hv
      exact (hSlots v).trans (if_neg hv)

/-! ## The operations -/

/-- No mutex is held. -/
def Free (m : Memory) : Prop := ∀ w, m.held w = false

theorem lock_free {m : Memory} (h : Free m) (w : Nat) :
    lock w m = .ok { m with held := Function.update m.held w true } := by
  simp [lock, h w]

theorem update_held (held : Nat → Bool) (w : Nat) (h : ∀ v, held v = false) (v : Nat) :
    Function.update (Function.update held w true) w false v = false := by
  rw [Function.update_idem, Function.update_apply]
  split
  · rfl
  · exact h v

theorem read_valid {src : Source} {m : Memory} (h : Tracks (fun _ => True) m)
    (hValid : src.Valid m) :
    ∃ p, src.read m = .ok p ∧ ∀ o, p = some o → m.Live o := by
  cases src with
  | pointer p => exact ⟨p, rfl, hValid⟩
  | weak v =>
    obtain ⟨s, hs⟩ := Option.ne_none_iff_exists'.mp hValid
    refine ⟨s.ptr, by simp [Source.read, slot_ok hs], ?_⟩
    intro o ho
    obtain ⟨l, -, hl, -⟩ := h.holds v s o trivial hs ho
    exact ⟨l, hl⟩

theorem read_congr {src : Source} {m m' : Memory} (h : m'.slots = m.slots) :
    src.read m' = src.read m := by
  cases src with
  | pointer p => rfl
  | weak v => simp [Source.read, Memory.slot, h]

/-- What setting a slot does, to a pointer that may be dereferenced. -/
structure Sets (w : Nat) (p : Option Nat) (m m' : Memory) : Prop where
  tracks : Tracks (fun _ => True) m'
  free : Free m'
  life : SameLife m m'
  slot : m'.holds w = p
  frame : ∀ v, v ≠ w → m'.slots v = m.slots v

theorem construct_spec {w : Nat} {src : Source} {m : Memory} {p : Option Nat}
    (h : Tracks (fun _ => True) m) (hFree : Free m) (hw : m.slots w = none)
    (hRead : src.read m = .ok p) (hLive : ∀ o, p = some o → m.Live o) :
    ∃ m', construct w src m = .ok m' ∧ Sets w p m m' := by
  have hOut : Tracks (· ≠ w) m := by
    refine ⟨fun v s o _ => h.holds v s o trivial, ?_, h.nodup, h.fresh⟩
    intro o l cb hl hcb
    obtain ⟨-, s, hs, hRest⟩ := h.callbacks o l cb hl hcb
    refine ⟨?_, s, hs, hRest⟩
    intro hcw
    rw [hcw, hw] at hs
    cases hs
  let m₁ : Memory := { m.setSlot w (some ⟨p, none⟩) with
    held := Function.update (Function.update m.held w false) w true }
  have hSlot : m₁.slots w = some ⟨p, none⟩ := (setSlot_slots m w w _).trans (if_pos rfl)
  obtain ⟨m₂, s, hTouch, hTracks, hLife, hs, hp, hFrame, hHeld⟩ :=
    touch_spec (m := m₁) ((hOut.setSlot _).of_eq rfl rfl rfl) hSlot hLive
  have hFree₁ : Free (unlock w (m.setSlot w (some ⟨p, none⟩))) := by
    intro v
    show Function.update m.held w false v = false
    rw [Function.update_apply]
    split
    · rfl
    · exact hFree v
  refine ⟨unlock w m₂, ?_, hTracks.of_eq rfl rfl rfl, ?_, hLife, ?_, ?_⟩
  · have hLock : lock w (unlock w (m.setSlot w (some ⟨p, none⟩))) = .ok m₁ := lock_free hFree₁ w
    unfold construct
    rw [hRead]
    show (lock w (unlock w (m.setSlot w (some ⟨p, none⟩))) >>= fun m => touch w m >>=
      fun m => pure (unlock w m)) = _
    rw [hLock]
    show (touch w m₁ >>= fun m => pure (unlock w m)) = _
    rw [hTouch]
    rfl
  · intro v
    show Function.update m₂.held w false v = false
    rw [hHeld]
    exact update_held _ w hFree₁ v
  · simp [unlock, Memory.holds, hs, hp]
  · intro v hv
    show m₂.slots v = m.slots v
    rw [hFrame v hv]
    exact (setSlot_slots m w v _).trans (if_neg hv)

theorem assign_spec {w : Nat} {src : Source} {m : Memory} {p : Option Nat}
    (h : Tracks (fun _ => True) m) (hFree : Free m) (hw : m.slots w ≠ none)
    (hRead : src.read m = .ok p) (hLive : ∀ o, p = some o → m.Live o) :
    ∃ m', assign w src m = .ok m' ∧ Sets w p m m' := by
  obtain ⟨s, hs⟩ := Option.ne_none_iff_exists'.mp hw
  let m₁ : Memory := { m with held := Function.update m.held w true }
  obtain ⟨m₂, hUntouch, hOut, hLife₂, hSlots₂, hHeld₂⟩ :=
    untouch_spec (m := m₁) (h.of_eq rfl rfl rfl) hs
  have hs₂ : m₂.slots w = some s := by rw [hSlots₂]; exact hs
  have hRead₂ : src.read m₂ = .ok p := (read_congr hSlots₂).trans hRead
  let m₃ : Memory := m₂.setSlot w (some { s with ptr := p })
  have hs₃ : m₃.slots w = some { s with ptr := p } := (setSlot_slots m₂ w w _).trans (if_pos rfl)
  obtain ⟨m₄, s₄, hTouch, hTracks, hLife₄, hs₄, hp, hFrame, hHeld₄⟩ :=
    touch_spec (m := m₃) (hOut.setSlot _) hs₃ (fun o ho => (hLife₂ o).1.mpr (hLive o ho))
  refine ⟨unlock w m₄, ?_, hTracks.of_eq rfl rfl rfl, ?_, hLife₂.trans hLife₄, ?_, ?_⟩
  · have hLock : lock w m = .ok m₁ := lock_free hFree w
    unfold assign
    rw [hLock]
    show (untouch w m₁ >>= fun m => src.read m >>= fun p => m.slot w >>= fun s =>
      touch w (m.setSlot w (some { s with ptr := p })) >>= fun m => pure (unlock w m)) = _
    rw [hUntouch]
    show (src.read m₂ >>= fun p => m₂.slot w >>= fun s =>
      touch w (m₂.setSlot w (some { s with ptr := p })) >>= fun m => pure (unlock w m)) = _
    rw [hRead₂, slot_ok hs₂]
    show (touch w m₃ >>= fun m => pure (unlock w m)) = _
    rw [hTouch]
    rfl
  · intro v
    show Function.update m₄.held w false v = false
    rw [hHeld₄]
    show Function.update m₂.held w false v = false
    rw [hHeld₂]
    exact update_held _ w hFree v
  · simp [unlock, Memory.holds, hs₄, hp]
  · intro v hv
    show m₄.slots v = m.slots v
    rw [hFrame v hv]
    show (m₂.setSlot w _).slots v = m.slots v
    rw [setSlot_slots, if_neg hv, hSlots₂]

theorem destruct_spec {w : Nat} {m : Memory} (h : Tracks (fun _ => True) m) (hFree : Free m)
    (hw : m.slots w ≠ none) :
    ∃ m', destruct w m = .ok m' ∧ m'.slots w = none ∧ Sets w none m m' := by
  obtain ⟨s, hs⟩ := Option.ne_none_iff_exists'.mp hw
  obtain ⟨m₁, hUntouch, hOut, hLife, hSlots, hHeld⟩ := untouch_spec h hs
  have hNone : (m₁.setSlot w none).slots w = none := (setSlot_slots m₁ w w none).trans (if_pos rfl)
  have hNull : (m₁.setSlot w none).holds w = none := by
    simp [Memory.holds, hNone]
  refine ⟨m₁.setSlot w none, ?_, hNone, (hOut.setSlot none).univ hNull, ?_, hLife, hNull, ?_⟩
  · simp [destruct, hUntouch]
  · intro v
    show m₁.held v = false
    rw [hHeld]
    exact hFree v
  · intro v hv
    rw [setSlot_slots, if_neg hv, hSlots]

theorem onDelete_spec {w : Nat} {m : Memory} {s : Slot} (hFree : Free m)
    (hs : m.slots w = some s) :
    ∃ m', onDelete w m = .ok m' ∧ m'.objects = m.objects ∧ m'.callbacks = m.callbacks ∧
      Free m' ∧ ∀ v, m'.slots v = if v = w then some { s with ptr := none } else m.slots v := by
  let m₁ : Memory := { m with held := Function.update m.held w true }
  refine ⟨unlock w (m₁.setSlot w (some { s with ptr := none })), ?_, rfl, rfl,
    update_held m.held w hFree, fun v => setSlot_slots m₁ w v _⟩
  unfold onDelete
  rw [slot_ok hs, lock_free hFree w]
  rfl

/-- The callbacks of an object set every slot they are bound to to null. -/
theorem trigger_spec {m : Memory} (hFree : Free m) (l : List Callback)
    (hSlots : ∀ cb ∈ l, m.slots cb.slot ≠ none) :
    ∃ m', l.foldlM (fun m cb => onDelete cb.slot m) m = Except.ok m' ∧ m'.objects = m.objects ∧
      m'.callbacks = m.callbacks ∧ Free m' ∧
      ∀ v, m'.slots v = if v ∈ l.map (·.slot) then (m.slots v).map (fun s => { s with ptr := none })
        else m.slots v := by
  induction l generalizing m with
  | nil => exact ⟨m, rfl, rfl, rfl, hFree, fun v => by simp⟩
  | cons cb l ih =>
    obtain ⟨s, hs⟩ := Option.ne_none_iff_exists'.mp (hSlots cb List.mem_cons_self)
    obtain ⟨m₁, hRun, hObjects, hCallbacks, hFree₁, hSlots₁⟩ := onDelete_spec hFree hs
    have hAlive : ∀ c ∈ l, m₁.slots c.slot ≠ none := by
      intro c hc
      rw [hSlots₁]
      split
      · simp
      · exact hSlots c (List.mem_cons_of_mem _ hc)
    obtain ⟨m₂, hRest, hObjects₂, hCallbacks₂, hFree₂, hSlots₂⟩ := ih hFree₁ hAlive
    refine ⟨m₂, ?_, hObjects₂.trans hObjects, hCallbacks₂.trans hCallbacks, hFree₂, ?_⟩
    · rw [List.foldlM_cons, hRun]
      exact hRest
    · intro v
      rw [hSlots₂, hSlots₁]
      by_cases hv : v = cb.slot
      · subst hv
        simp [hs]
      · simp [hv]

/-- What the destructor of an object does. -/
structure Destroys (o : Nat) (m m' : Memory) : Prop where
  tracks : Tracks (fun _ => True) m'
  free : Free m'
  objects : ∀ p, m'.objects p = if p = o then .destroyed else m.objects p
  slots : ∀ v, m'.slots v = if m.holds v = some o
    then (m.slots v).map (fun s => { s with ptr := none }) else m.slots v

theorem destroy_spec {o : Nat} {m : Memory} (h : Tracks (fun _ => True) m) (hFree : Free m)
    (hLive : m.Live o) : ∃ m', destroy o m = .ok m' ∧ Destroys o m m' := by
  obtain ⟨l, hl⟩ := hLive
  have hAlive : ∀ cb ∈ l, m.slots cb.slot ≠ none := by
    intro cb hcb
    obtain ⟨-, s, hs, -⟩ := h.callbacks o l cb hl hcb
    rw [hs]
    simp
  obtain ⟨m₁, hRun, hObjects, hCallbacks, hFree₁, hSlots⟩ := trigger_spec hFree l hAlive
  -- The slots that are called are the slots that hold the object.
  have hCalled : ∀ v, v ∈ l.map (·.slot) ↔ m.holds v = some o := by
    intro v
    constructor
    · intro hv
      obtain ⟨cb, hcb, rfl⟩ := List.mem_map.mp hv
      obtain ⟨-, s, hs, hp, -⟩ := h.callbacks o l cb hl hcb
      simp [Memory.holds, hs, hp]
    · intro hv
      obtain ⟨s, hs, hp⟩ := Option.bind_eq_some_iff.mp hv
      obtain ⟨l', cb, hl', -, hcv, hcb⟩ := h.holds v s o trivial hs hp
      rw [hl] at hl'
      cases hl'
      exact List.mem_map.mpr ⟨cb, hcb, hcv⟩
  have hSlots' : ∀ v, m₁.slots v = if m.holds v = some o
      then (m.slots v).map (fun s => { s with ptr := none }) else m.slots v := by
    intro v
    rw [hSlots]
    simp only [hCalled]
  have hLives : ∀ p l', (m₁.setObject o .destroyed).objects p = .live l' →
      p ≠ o ∧ m.objects p = .live l' := by
    intro p l' hl'
    rw [setObject_objects, hObjects] at hl'
    split at hl'
    · cases hl'
    · rename_i hpo
      exact ⟨hpo, hl'⟩
  refine ⟨m₁.setObject o .destroyed, by simp [destroy, hl, hRun], ⟨?_, ?_, ?_, ?_⟩, hFree₁,
    fun p => by rw [setObject_objects, hObjects], hSlots'⟩
  · intro v s p _ hs hp
    rw [setObject_slots, hSlots'] at hs
    split at hs
    · obtain ⟨t, -, rfl⟩ := Option.map_eq_some_iff.mp hs
      cases hp
    · rename_i hv
      have hpo : p ≠ o := by
        rintro rfl
        exact hv (by simp [Memory.holds, hs, hp])
      obtain ⟨l', cb, hl', hRest⟩ := h.holds v s p trivial hs hp
      refine ⟨l', cb, ?_, hRest⟩
      rw [setObject_objects, if_neg hpo, hObjects]
      exact hl'
  · intro p l' cb hl' hcb
    obtain ⟨hpo, hl'⟩ := hLives p l' hl'
    obtain ⟨-, s, hs, hp, hRest⟩ := h.callbacks p l' cb hl' hcb
    refine ⟨trivial, s, ?_, hp, hRest⟩
    have hv : m.holds cb.slot ≠ some o := by
      simpa [Memory.holds, hs, hp] using hpo
    rw [setObject_slots, hSlots', if_neg hv]
    exact hs
  · exact fun p l' hl' => h.nodup p l' (hLives p l' hl').2
  · intro p l' cb hl' hcb
    rw [setObject_callbacks, hCallbacks]
    exact h.fresh p l' cb (hLives p l' hl').2 hcb

/-! ## Every run -/

/-- The invariant of a run: slots and callbacks agree, no mutex is held, and a slot holds
what it was last set to unless that object is destroyed. -/
structure Good (s : State) : Prop where
  tracks : Tracks (fun _ => True) s.memory
  free : Free s.memory
  remembers : ∀ w t, s.memory.slots w = some t → t.ptr = s.lastSet w ∨
    t.ptr = none ∧ ∃ o, s.lastSet w = some o ∧ s.memory.objects o = .destroyed

theorem start_good : Good start := by
  refine ⟨⟨?_, ?_, ?_, ?_⟩, fun _ => rfl, ?_⟩
  · intro w s o _ hs
    cases hs
  · intro o l cb hl
    cases hl
  · intro o l hl
    cases hl
  · intro o l cb hl
    cases hl
  · intro w t ht
    cases ht

theorem Good.sets {s : State} {w : Nat} {p : Option Nat} {m : Memory} (h : Good s)
    (hSets : Sets w p s.memory m) : Good ⟨m, Function.update s.lastSet w p⟩ := by
  refine ⟨hSets.tracks, hSets.free, ?_⟩
  intro v t ht
  by_cases hv : v = w
  · subst hv
    left
    have hHolds := hSets.slot
    rw [Memory.holds, ht] at hHolds
    dsimp only
    rw [Function.update_self]
    exact hHolds
  · rw [hSets.frame v hv] at ht
    dsimp only
    rw [Function.update_of_ne hv]
    rcases h.remembers v t ht with hp | ⟨hp, o, ho, hDead⟩
    · exact Or.inl hp
    · exact Or.inr ⟨hp, o, ho, (hSets.life o).2.mpr hDead⟩

theorem Good.destruct {s : State} {w : Nat} {m : Memory} (h : Good s)
    (hw : m.slots w = none) (hSets : Sets w none s.memory m) : Good { s with memory := m } := by
  refine ⟨hSets.tracks, hSets.free, ?_⟩
  intro v t ht
  have hv : v ≠ w := by
    rintro rfl
    rw [hw] at ht
    cases ht
  rw [hSets.frame v hv] at ht
  rcases h.remembers v t ht with hp | ⟨hp, o, ho, hDead⟩
  · exact Or.inl hp
  · exact Or.inr ⟨hp, o, ho, (hSets.life o).2.mpr hDead⟩

theorem Good.destroys {s : State} {o : Nat} {m : Memory} (h : Good s)
    (hDestroys : Destroys o s.memory m) : Good { s with memory := m } := by
  refine ⟨hDestroys.tracks, hDestroys.free, ?_⟩
  intro v t ht
  have hDead : ∀ p, s.memory.objects p = .destroyed → m.objects p = .destroyed := by
    intro p hp
    rw [hDestroys.objects]
    split
    · rfl
    · exact hp
  rw [hDestroys.slots] at ht
  split at ht
  · rename_i hHolds
    obtain ⟨t', ht', rfl⟩ := Option.map_eq_some_iff.mp ht
    have hp : t'.ptr = some o := by simpa [Memory.holds, ht'] using hHolds
    rcases h.remembers v t' ht' with hLast | ⟨hNull, -⟩
    · exact Or.inr ⟨rfl, o, hLast ▸ hp, by rw [hDestroys.objects, if_pos rfl]⟩
    · rw [hp] at hNull
      cases hNull
  · rcases h.remembers v t ht with hp | ⟨hp, p, hLast, hp'⟩
    · exact Or.inl hp
    · exact Or.inr ⟨hp, p, hLast, hDead p hp'⟩

theorem Good.newObject {s : State} {o : Nat} (h : Good s) (ho : s.memory.objects o = .unborn) :
    Good { s with memory := s.memory.setObject o (.live []) } := by
  have hKeep : ∀ p x, x ≠ .unborn → s.memory.objects p = x →
      (s.memory.setObject o (.live [])).objects p = x := by
    intro p x hx hp
    rw [setObject_objects, if_neg ?_]
    · exact hp
    · rintro rfl
      exact hx (hp.symm.trans ho)
  have hLives : ∀ p l cb, (s.memory.setObject o (.live [])).objects p = .live l → cb ∈ l →
      s.memory.objects p = .live l := by
    intro p l cb hl hcb
    rw [setObject_objects] at hl
    split at hl
    · cases hl
      cases hcb
    · exact hl
  refine ⟨⟨?_, ?_, ?_, ?_⟩, h.free, ?_⟩
  · intro w t p _ ht hp
    obtain ⟨l, cb, hl, hRest⟩ := h.tracks.holds w t p trivial ht hp
    exact ⟨l, cb, hKeep p _ (by simp) hl, hRest⟩
  · exact fun p l cb hl hcb => h.tracks.callbacks p l cb (hLives p l cb hl hcb) hcb
  · intro p l hl
    cases l with
    | nil => exact List.nodup_nil
    | cons cb l => exact h.tracks.nodup p _ (hLives p _ cb hl List.mem_cons_self)
  · exact fun p l cb hl hcb => h.tracks.fresh p l cb (hLives p l cb hl hcb) hcb
  · intro w t ht
    rcases h.remembers w t ht with hp | ⟨hp, p, hLast, hDead⟩
    · exact Or.inl hp
    · exact Or.inr ⟨hp, p, hLast, hKeep p _ (by simp) hDead⟩

/-- Every allowed operation is carried out and keeps the invariant. -/
theorem next_good (s : State) (op : Op) (h : Good s) (hAllowed : Allowed s op) :
    ∃ t, next s op = .ok t ∧ Good t := by
  cases op with
  | newObject o => exact ⟨_, rfl, h.newObject hAllowed⟩
  | construct w src =>
    obtain ⟨hw, hValid⟩ := hAllowed
    obtain ⟨p, hRead, hLive⟩ := read_valid h.tracks hValid
    obtain ⟨m, hRun, hSets⟩ := construct_spec h.tracks h.free hw hRead hLive
    refine ⟨_, ?_, h.sets hSets⟩
    rw [next, hRead, hRun]
    rfl
  | assign w src =>
    obtain ⟨hw, hValid⟩ := hAllowed
    obtain ⟨p, hRead, hLive⟩ := read_valid h.tracks hValid
    obtain ⟨m, hRun, hSets⟩ := assign_spec h.tracks h.free hw hRead hLive
    refine ⟨_, ?_, h.sets hSets⟩
    rw [next, hRead, hRun]
    rfl
  | destruct w =>
    obtain ⟨m, hRun, hNone, hSets⟩ := destruct_spec h.tracks h.free hAllowed
    exact ⟨_, by simp [next, hRun], h.destruct hNone hSets⟩
  | destroy o =>
    obtain ⟨m, hRun, hDestroys⟩ := destroy_spec h.tracks h.free hAllowed
    exact ⟨_, by simp [next, hRun], h.destroys hDestroys⟩

theorem Good.live {s : State} (h : Good s) {w o : Nat} (hHolds : s.memory.holds w = some o) :
    s.memory.Live o := by
  obtain ⟨t, ht, hp⟩ := Option.bind_eq_some_iff.mp hHolds
  obtain ⟨l, -, hl, -⟩ := h.tracks.holds w t o trivial ht hp
  exact ⟨l, hl⟩

/-- The callbacks for one slot in the list of an object: there is one if the slot holds the
object. -/
theorem Good.count {s : State} (h : Good s) {o : Nat} {l : List Callback}
    (hl : s.memory.objects o = .live l) (w : Nat) :
    l.countP (fun cb => cb.slot = w) = if s.memory.holds w = some o then 1 else 0 := by
  have hMine : ∀ cb ∈ l, cb.slot = w →
      ∃ t, s.memory.slots w = some t ∧ t.ptr = some o ∧ t.onDelete = some cb := by
    rintro cb hcb rfl
    exact (h.tracks.callbacks o l cb hl hcb).2
  split
  · rename_i hHolds
    obtain ⟨t, ht, hp⟩ := Option.bind_eq_some_iff.mp hHolds
    obtain ⟨l', cb, hl', hcb, hcw, hMem⟩ := h.tracks.holds w t o trivial ht hp
    rw [hl] at hl'
    cases hl'
    have hEq : l.countP (fun c => c.slot = w) = l.count cb := by
      rw [List.count]
      refine List.countP_congr fun c hc => ?_
      constructor
      · intro hcw'
        obtain ⟨t', ht', -, hc'⟩ := hMine c hc (by simpa using hcw')
        rw [ht] at ht'
        cases ht'
        rw [hcb] at hc'
        simpa using (Option.some.inj hc').symm
      · intro hc'
        have hc' : c = cb := by simpa using hc'
        simpa [hc'] using hcw
    rw [hEq]
    exact List.count_eq_one_of_mem (List.Nodup.of_map _ (h.tracks.nodup o l hl)) hMem
  · rename_i hHolds
    rw [List.countP_eq_zero]
    intro cb hcb hcw
    obtain ⟨t, ht, hp, -⟩ := hMine cb hcb (by simpa using hcw)
    exact hHolds (by simp [Memory.holds, ht, hp])

theorem Good.safe {s : State} (h : Good s) : Safe s := by
  refine ⟨fun w o => h.live, ?_, ?_, fun o l hl w => h.count hl w⟩
  · intro w o hLast hDead
    cases hSlot : s.memory.slots w with
    | none => simp [Memory.holds, hSlot]
    | some t =>
      rcases h.remembers w t hSlot with hp | ⟨hp, -⟩
      · obtain ⟨l, hl⟩ := h.live (w := w) (o := o) (by simp [Memory.holds, hSlot, hp, hLast])
        rw [hDead] at hl
        cases hl
      · simp [Memory.holds, hSlot, hp]
  · intro w o hSlot hLast hAlive
    obtain ⟨t, ht⟩ := Option.ne_none_iff_exists'.mp hSlot
    rcases h.remembers w t ht with hp | ⟨-, p, hLast', hDead⟩
    · simp [Memory.holds, ht, hp, hLast]
    · rw [hLast] at hLast'
      cases hLast'
      exact absurd hDead hAlive

/-- Every run of allowed operations is carried out without a failure, and in the state it
ends in no slot dangles. -/
theorem weak_never_dangles (ops : List Op) (hLegal : Transition.Legal Allowed next start ops) :
    ∃ s, Transition.run next start ops = .ok s ∧ Safe s := by
  obtain ⟨s, hRun, hGood⟩ := Transition.run_legal next_good start_good hLegal
  exact ⟨s, hRun, hGood.safe⟩

/-- A run with a copy, an assignment of a slot to itself and the end of the object. -/
theorem weak_never_dangles_copied :
    let ops : List Op := [.newObject 0, .construct 0 (.pointer (some 0)), .construct 1 (.weak 0),
      .assign 0 (.weak 0), .destroy 0]
    Transition.Legal Allowed next start ops ∧
      ∃ s, Transition.run next start ops = .ok s ∧ Safe s := by
  intro ops
  have hLegal : Transition.Legal Allowed next start ops := by
    refine ⟨rfl, ?_⟩
    intro t₁ hRun
    cases hRun
    refine ⟨⟨rfl, by intro o hEq; cases hEq; exact ⟨_, rfl⟩⟩, ?_⟩
    intro t₂ hRun
    cases hRun
    refine ⟨⟨rfl, Option.some_ne_none _⟩, ?_⟩
    intro t₃ hRun
    cases hRun
    refine ⟨⟨Option.some_ne_none _, Option.some_ne_none _⟩, ?_⟩
    intro t₄ hRun
    cases hRun
    exact ⟨⟨_, rfl⟩, fun _ _ => trivial⟩
  exact ⟨hLegal, weak_never_dangles ops hLegal⟩

end RetroConfig.Weak
