import RetroConfig.Library.Transition
import Mathlib.Logic.Function.Basic
import Mathlib.Data.List.Nodup

/-!
# One Dart object for one native object

A native object has a list of `ScriptInstance`s, at most one for each script that knows it, and each
of them holds the object. A Dart object has the address of a `DartInstance` as its `_id`, and
`_objectDB` leads from the address back to the Dart object. An address that was freed may be handed
out again.

`Linked` says that every instance is in the list of its target and holds it. A new instance keeps it
(`linked_added`), and so does the end of one, with which an object dies that nobody else holds
(`linked_removed`).
-/

namespace RetroConfig.Identity

/-! ## The two sides -/

inductive Script where
  | dart
  | other (n : Nat)
  deriving DecidableEq

/-- `ScriptInstance`. -/
structure ScriptInstance where
  script : Script
  target : Option Nat

structure State where
  /-- The scripts of the native objects that are alive. -/
  scripts : Nat → Option (List Nat)
  /-- `Object::count`. -/
  count : Nat → Nat
  /-- What is at an address. -/
  instances : Nat → Option ScriptInstance
  /-- `Script::instances` of the Dart script. -/
  registry : List Nat
  /-- The `_id` of the Dart objects that there are. -/
  ids : Nat → Option (Option Nat)
  /-- `_objectDB`. -/
  objectDB : Nat → Option Nat
  /-- The calls of `createObject` that are inside of an initializer: for which Dart object, and
  which native one. -/
  pending : List (Nat × Nat)
  /-- `DartScript::alive`. -/
  alive : Bool

inductive Fault where
  | deadObject
  | deadInstance
  /-- An object is deleted while one of its instances holds it. -/
  | stillHeld
  /-- `DartScript::instance` is null. -/
  | noScript
  /-- There is no such Dart object or call. -/
  | missing
  deriving DecidableEq

namespace State

/-! ## Native objects -/

def getScripts (o : Nat) (s : State) : Except Fault (List Nat) :=
  match s.scripts o with
  | some l => .ok l
  | none => .error .deadObject

/-- `Object::addScript`. -/
def addScript (o p : Nat) (s : State) : Except Fault State := do
  let l ← s.getScripts o
  .ok { s with scripts := Function.update s.scripts o (some (l ++ [p])) }

/-- `Object::removeScript`. -/
def removeScript (o p : Nat) (s : State) : Except Fault State := do
  let l ← s.getScripts o
  .ok { s with scripts := Function.update s.scripts o (some (l.filter (· ≠ p))) }

/-- The loop of `Object::findScript`. -/
def findLoop (script : Script) (s : State) : List Nat → Except Fault (Option Nat)
  | [] => .ok none
  | p :: rest =>
    match s.instances p with
    | none => .error .deadInstance
    | some ins => if ins.script = script then .ok (some p) else findLoop script s rest

/-- `Object::findScript`. -/
def findScript (script : Script) (o : Nat) (s : State) : Except Fault (Option Nat) := do
  let l ← s.getScripts o
  findLoop script s l

/-- `Reference::retain`. -/
def retain (o : Nat) (s : State) : Except Fault State := do
  let _ ← s.getScripts o
  .ok { s with count := Function.update s.count o (s.count o + 1) }

/-- `Object::~Object`. An instance in its list would be the target of `setTarget`, though its object
is not held any more. -/
def deleteObject (o : Nat) (s : State) : Except Fault State := do
  let l ← s.getScripts o
  if l = [] then .ok { s with scripts := Function.update s.scripts o none }
  else .error .stillHeld

/-- `Reference::release`. -/
def release (o : Nat) (s : State) : Except Fault State := do
  let _ ← s.getScripts o
  let s := { s with count := Function.update s.count o (s.count o - 1) }
  if s.count o = 0 then s.deleteObject o else .ok s

/-! ## Instances -/

/-- `ScriptClass::create` up to the script's own part, and the end of `ScriptClass::newInstance`. -/
def makeInstance (script : Script) (o p : Nat) (s : State) : Except Fault State := do
  let s ← s.retain o
  let s ← s.addScript o p
  let s := { s with instances := Function.update s.instances p (some ⟨script, some o⟩) }
  .ok (if script = .dart then { s with registry := p :: s.registry } else s)

/-- `ScriptInstance::~ScriptInstance`. -/
def deleteInstance (p : Nat) (s : State) : Except Fault State :=
  match s.instances p with
  | none => .error .deadInstance
  | some ins => do
    let s ← match ins.target with
      | none => .ok s
      | some o => s.removeScript o p
    let s := { s with
      instances := Function.update s.instances p none
      registry := if ins.script = .dart then s.registry.erase p else s.registry }
    match ins.target with
    | none => .ok s
    | some o => s.release o

/-- `Script::clear`. -/
def clear (s : State) : Except Fault State := s.registry.foldlM (fun s p => s.deleteInstance p) s

/-! ## The bridge -/

/-- `dart_toDart` for an object, and `_createNativeTarget`: `p` is where a new instance is made, `d`
is the new Dart object, and `found` says whether a constructor is found for it. -/
def toDart (o p d : Nat) (found : Bool) (s : State) : Except Fault (State × Option Nat) := do
  match ← s.findScript .dart o with
  | some ins => .ok (s, some ins)
  | none =>
    if !s.alive then .error .noScript
    else do
      let s ← s.makeInstance .dart o p
      if found then
        .ok ({ s with
          ids := Function.update s.ids d (some (some p))
          objectDB := Function.update s.objectDB p (some d) }, some p)
      else do
        let s ← s.deleteInstance p
        .ok (s, none)

/-- What `_convertArgv` makes of an object. -/
def convert (s : State) (pointerValue : Option Nat) : Option Nat := pointerValue.bind s.objectDB

/-- `Base.allocate` until the initializer runs: a Dart object without an `_id`, and a native object
that nobody holds. -/
def beginAllocate (d o : Nat) (s : State) : State :=
  { s with
    scripts := Function.update s.scripts o (some [])
    count := Function.update s.count o 0
    ids := Function.update s.ids d (some none)
    pending := (d, o) :: s.pending }

/-- The rest of `createObject` and of `Base.allocate`. -/
def endAllocate (p : Nat) (s : State) : Except Fault State :=
  match s.pending with
  | [] => .error .missing
  | (d, o) :: pending => do
    let s ← s.makeInstance .dart o p
    .ok { s with
      ids := Function.update s.ids d (some (some p))
      objectDB := Function.update s.objectDB p (some d)
      pending }

/-- `Base.destroy`, with `dart_freeObject`. -/
def destroy (d : Nat) (s : State) : Except Fault State :=
  match s.ids d with
  | none => .error .missing
  | some none => .ok s
  | some (some p) => do
    let s ← if s.alive then s.deleteInstance p else .ok s
    .ok { s with
      ids := Function.update s.ids d (some none)
      objectDB := Function.update s.objectDB p none }

/-- `DartScript::destroy`. -/
def destroyLibrary (s : State) : Except Fault State := do
  let s ← s.clear
  .ok { s with alive := false }

end State

/-! ## Runs -/

inductive Op where
  /-- Native code makes an object, and holds it. -/
  | make (o : Nat)
  | hold (o : Nat)
  | letGo (o : Nat)
  | beginAllocate (d o : Nat)
  | endAllocate (p : Nat)
  | toDart (o p d : Nat) (found : Bool)
  | destroy (d : Nat)
  /-- Another script gets an instance of an object, and deletes one. -/
  | toScript (n o p : Nat)
  | freeScript (p : Nat)
  | destroyLibrary

/-- Before anything has crossed. -/
def start : State :=
  ⟨fun _ => none, fun _ => 0, fun _ => none, [], fun _ => none, fun _ => none, [], true⟩

def next (s : State) : Op → Except Fault State
  | .make o => .ok { s with
      scripts := Function.update s.scripts o (some [])
      count := Function.update s.count o 1 }
  | .hold o => s.retain o
  | .letGo o => s.release o
  | .beginAllocate d o => .ok (s.beginAllocate d o)
  | .endAllocate p => s.endAllocate p
  | .toDart o p d found => do
    let (s, _) ← s.toDart o p d found
    .ok s
  | .destroy d => s.destroy d
  | .toScript n o p => s.makeInstance (.other n) o p
  | .freeScript p => s.deleteInstance p
  | .destroyLibrary => s.destroyLibrary

/-- The native objects whose initializers run. -/
def State.initializing (s : State) (o : Nat) : Prop := o ∈ s.pending.map Prod.snd

/-- What a program may do: use what is alive, make what is new, and let go of an object that it holds.
An initializer keeps its object, and does not hand it over to Dart. -/
def Allowed (s : State) : Op → Prop
  | .make o => s.scripts o = none
  | .hold o => s.scripts o ≠ none
  | .letGo o => (∃ l, s.scripts o = some l ∧ l.length < s.count o) ∧
    (s.initializing o → 1 < s.count o)
  | .beginAllocate d o => s.alive = true ∧ s.ids d = none ∧ s.scripts o = none
  | .endAllocate p => s.pending ≠ [] ∧ s.instances p = none
  | .toDart o p d _ => s.alive = true ∧ s.scripts o ≠ none ∧ ¬ s.initializing o ∧
    s.instances p = none ∧ s.ids d = none
  | .destroy d => s.ids d ≠ none
  | .toScript n o p => s.scripts o ≠ none ∧ s.findScript (.other n) o = .ok none ∧
    s.instances p = none
  | .freeScript p => ∃ n o, s.instances p = some ⟨.other n, some o⟩ ∧
    (s.initializing o → 1 < s.count o)
  | .destroyLibrary => s.alive = true ∧ s.pending = []

/-- The Dart object that a native object has. -/
def State.received (s : State) (o : Nat) : Option Nat :=
  match s.findScript .dart o with
  | .ok p => s.convert p
  | .error _ => none

/-- The native object that a Dart object is converted to: `dart_toVariant`. -/
def State.sent (s : State) (d : Nat) : Option Nat :=
  (s.ids d).join.bind fun p => (s.instances p).bind (·.target)

/-! ## The lists of instances -/

/-- Every instance is in the list of its target, and the lists contain nothing else; an object has at
most one instance for a script, and is held. -/
structure Linked (s : State) : Prop where
  nodup : ∀ o l, s.scripts o = some l → l.Nodup
  length : ∀ o l, s.scripts o = some l → l.length ≤ s.count o
  listed : ∀ o l p, s.scripts o = some l → p ∈ l → ∃ script, s.instances p = some ⟨script, some o⟩
  target : ∀ p ins, s.instances p = some ins →
    ∃ o l, ins.target = some o ∧ s.scripts o = some l ∧ p ∈ l
  single : ∀ p q ins, s.instances p = some ins → s.instances q = some ins → p = q
  held : ∀ o, s.scripts o ≠ none → ¬ s.initializing o → 0 < s.count o
  registered : s.registry.Nodup ∧
    ∀ p, p ∈ s.registry ↔ ∃ target, s.instances p = some ⟨.dart, target⟩

section Find

variable {s : State} {script : Script} {o p : Nat} {l : List Nat}

theorem getScripts_eq (h : s.scripts o = some l) : s.getScripts o = .ok l := by
  rw [State.getScripts, h]

/-- `findScript` finds what is in the list. -/
theorem findLoop_spec (script : Script)
    (h : ∀ p ∈ l, ∃ script, s.instances p = some ⟨script, some o⟩) :
    ∃ r, s.findLoop script l = .ok r ∧
      (∀ p, r = some p → s.instances p = some ⟨script, some o⟩) ∧
      (r = none → ∀ p ∈ l, s.instances p ≠ some ⟨script, some o⟩) := by
  induction l with
  | nil => exact ⟨none, rfl, nofun, nofun⟩
  | cons q rest ih =>
    obtain ⟨other, hq⟩ := h q List.mem_cons_self
    obtain ⟨r, hLoop, hSome, hNone⟩ := ih fun p hp => h p (List.mem_cons_of_mem _ hp)
    rw [State.findLoop, hq]
    by_cases hScript : other = script
    · subst hScript
      refine ⟨some q, if_pos rfl, ?_, nofun⟩
      rintro p hp
      obtain rfl := Option.some.inj hp
      exact hq
    · refine ⟨r, (if_neg hScript).trans hLoop, hSome, ?_⟩
      intro hr p hp
      rcases List.mem_cons.mp hp with rfl | hp
      · rw [hq]
        intro hEq
        exact hScript (ScriptInstance.mk.inj (Option.some.inj hEq)).1
      · exact hNone hr p hp

theorem Linked.findScript_ok (h : Linked s) (script : Script) (ho : s.scripts o = some l) :
    ∃ r, s.findScript script o = .ok r ∧ ∀ p, r = some p ↔ s.instances p = some ⟨script, some o⟩ := by
  obtain ⟨r, hLoop, hSome, hNone⟩ := findLoop_spec script (h.listed o l · ho)
  refine ⟨r, ?_, fun p => ⟨hSome p, fun hp => ?_⟩⟩
  · rw [State.findScript, getScripts_eq ho]
    exact hLoop
  · cases r with
    | none =>
      obtain ⟨o', l', hTarget, hScripts, hMem⟩ := h.target p _ hp
      obtain rfl := Option.some.inj hTarget
      obtain rfl := Option.some.inj (ho.symm.trans hScripts)
      exact absurd hp (hNone rfl p hMem)
    | some q => rw [h.single p q _ hp (hSome q rfl)]

theorem Linked.findScript_eq_some (h : Linked s) (hp : s.instances p = some ⟨script, some o⟩) :
    s.findScript script o = .ok (some p) := by
  obtain ⟨o', l, hTarget, ho, -⟩ := h.target p _ hp
  obtain rfl := Option.some.inj hTarget
  obtain ⟨r, hFind, hIff⟩ := h.findScript_ok script ho
  rw [hFind, (hIff p).mpr hp]

theorem Linked.of_findScript_none (h : Linked s) (hFind : s.findScript script o = .ok none)
    (q : Nat) : s.instances q ≠ some ⟨script, some o⟩ := by
  intro hq
  have hSome := h.findScript_eq_some hq
  rw [hFind] at hSome
  cases hSome

end Find

/-! ### A new instance -/

section Instances

variable {s : State} {script : Script} {o p : Nat} {l : List Nat}

/-- What `makeInstance` leaves. -/
def State.added (s : State) (script : Script) (o p : Nat) (l : List Nat) : State :=
  { s with
    scripts := Function.update s.scripts o (some (l ++ [p]))
    count := Function.update s.count o (s.count o + 1)
    instances := Function.update s.instances p (some ⟨script, some o⟩)
    registry := if script = .dart then p :: s.registry else s.registry }

theorem makeInstance_eq (ho : s.scripts o = some l) :
    s.makeInstance script o p = .ok (s.added script o p l) := by
  rw [State.makeInstance, State.retain, getScripts_eq ho]
  show (State.addScript o p { s with count := _ } >>= _) = _
  have hScripts : State.getScripts o { s with count := Function.update s.count o (s.count o + 1) } =
      .ok l := getScripts_eq ho
  rw [State.addScript, hScripts]
  unfold State.added
  by_cases hDart : script = .dart
  · simp only [hDart, if_true]
    rfl
  · simp only [hDart, if_false]
    rfl

/-- What `deleteInstance` leaves. -/
def State.removed (s : State) (script : Script) (o p : Nat) (l : List Nat) : State :=
  { s with
    scripts := Function.update s.scripts o (if s.count o = 1 then none else some (l.erase p))
    count := Function.update s.count o (s.count o - 1)
    instances := Function.update s.instances p none
    registry := if script = .dart then s.registry.erase p else s.registry }

theorem Linked.mem_iff (h : Linked s) (ho : s.scripts o = some l) :
    p ∈ l ↔ ∃ script, s.instances p = some ⟨script, some o⟩ := by
  refine ⟨h.listed o l p ho, ?_⟩
  rintro ⟨script, hp⟩
  obtain ⟨o', l', hTarget, ho', hMem⟩ := h.target p _ hp
  obtain rfl := Option.some.inj hTarget
  obtain rfl := Option.some.inj (ho.symm.trans ho')
  exact hMem

/-- An object that nobody else holds dies with its last instance. -/
theorem Linked.deleteInstance_eq (h : Linked s) (hp : s.instances p = some ⟨script, some o⟩)
    (ho : s.scripts o = some l) : s.deleteInstance p = .ok (s.removed script o p l) := by
  have hMem : p ∈ l := (h.mem_iff ho).mpr ⟨script, hp⟩
  have hLength := h.length o l ho
  have hErase : l.filter (fun q => decide (q ≠ p)) = l.erase p := by
    rw [(h.nodup o l ho).erase_eq_filter]
    exact List.filter_congr fun q _ => by simp [bne, beq_eq_decide]
  have hErased := List.length_erase_of_mem hMem
  have hPos := List.length_pos_of_mem hMem
  rw [State.deleteInstance, hp]
  dsimp only
  rw [State.removeScript, getScripts_eq ho]
  simp only [Transition.ok_bind, hErase]
  unfold State.release
  rw [getScripts_eq (l := l.erase p) (by simp)]
  simp only [Transition.ok_bind, Function.update_self]
  by_cases hOne : s.count o = 1
  · have hNil : l.erase p = [] := List.eq_nil_of_length_eq_zero (by omega)
    rw [if_pos (by omega), State.deleteObject, getScripts_eq (l := []) (by simp [hNil])]
    simp [State.removed, hOne]
  · rw [if_neg (by omega)]
    simp [State.removed, hOne]

theorem linked_added (h : Linked s) (ho : s.scripts o = some l) (hp : s.instances p = none)
    (hNew : ∀ q, s.instances q ≠ some ⟨script, some o⟩) : Linked (s.added script o p l) := by
  have hOther : ∀ {q : Nat}, s.instances q ≠ none → q ≠ p := by
    rintro q hq rfl
    exact hq hp
  have hNot : p ∉ l := by
    intro hMem
    obtain ⟨other, hSome⟩ := h.listed o l p ho hMem
    rw [hp] at hSome
    cases hSome
  have hLength := h.length o l ho
  -- the list of an object, and that of another one
  have hScripts : ∀ {o' l'}, (s.added script o p l).scripts o' = some l' →
      (o' = o ∧ l' = l ++ [p]) ∨ (o' ≠ o ∧ s.scripts o' = some l') := by
    intro o' l' h'
    simp only [State.added, Function.update_apply] at h'
    split at h'
    · next hEq => exact .inl ⟨hEq, (Option.some.inj h').symm⟩
    · next hNe => exact .inr ⟨hNe, h'⟩
  have hInstances : ∀ {q : Nat}, s.instances q ≠ none →
      (s.added script o p l).instances q = s.instances q := fun hq =>
    Function.update_of_ne (hOther hq) _ _
  have hCases : ∀ {q ins}, (s.added script o p l).instances q = some ins →
      (q = p ∧ ins = ⟨script, some o⟩) ∨ (q ≠ p ∧ s.instances q = some ins) := by
    intro q ins hq
    simp only [State.added, Function.update_apply] at hq
    split at hq
    · next hEq => exact .inl ⟨hEq, (Option.some.inj hq).symm⟩
    · next hNe => exact .inr ⟨hNe, hq⟩
  constructor
  case nodup =>
    intro o' l' h'
    rcases hScripts h' with ⟨-, rfl⟩ | ⟨-, h'⟩
    · exact List.nodup_append.mpr ⟨h.nodup o l ho, List.nodup_singleton p, by
        rintro a ha b hb rfl
        exact hNot (List.mem_singleton.mp hb ▸ ha)⟩
    · exact h.nodup o' l' h'
  case length =>
    intro o' l' h'
    rcases hScripts h' with ⟨rfl, rfl⟩ | ⟨hNe, h'⟩
    · simp only [State.added, Function.update_self, List.length_append, List.length_singleton]
      omega
    · simp only [State.added, Function.update_of_ne hNe]
      exact h.length o' l' h'
  case listed =>
    intro o' l' q h' hMem
    rcases hScripts h' with ⟨rfl, rfl⟩ | ⟨-, h'⟩
    · rcases List.mem_append.mp hMem with hMem | hMem
      · obtain ⟨other, hq⟩ := h.listed _ l q ho hMem
        exact ⟨other, by rw [hInstances (by simp [hq]), hq]⟩
      · obtain rfl := List.mem_singleton.mp hMem
        exact ⟨script, Function.update_self _ _ _⟩
    · obtain ⟨other, hq⟩ := h.listed o' l' q h' hMem
      exact ⟨other, by rw [hInstances (by simp [hq]), hq]⟩
  case target =>
    intro q ins hq
    rcases hCases hq with ⟨rfl, rfl⟩ | ⟨-, hq⟩
    · exact ⟨o, l ++ [q], rfl, Function.update_self _ _ _, by simp⟩
    · obtain ⟨o', l', hTarget, h', hMem⟩ := h.target q ins hq
      by_cases hEq : o' = o
      · subst hEq
        obtain rfl := Option.some.inj (ho.symm.trans h')
        exact ⟨o', l ++ [p], hTarget, Function.update_self _ _ _, List.mem_append_left _ hMem⟩
      · exact ⟨o', l', hTarget, (Function.update_of_ne hEq _ _).trans h', hMem⟩
  case single =>
    intro q r ins hq hr
    rcases hCases hq with ⟨rfl, rfl⟩ | ⟨-, hq'⟩
    · rcases hCases hr with ⟨rfl, -⟩ | ⟨-, hr'⟩
      · rfl
      · exact absurd hr' (hNew r)
    · rcases hCases hr with ⟨rfl, rfl⟩ | ⟨-, hr'⟩
      · exact absurd hq' (hNew q)
      · exact h.single q r ins hq' hr'
  case held =>
    intro o' hLive hNot
    simp only [State.added, Function.update_apply] at hLive ⊢
    split
    · exact Nat.succ_pos _
    · next hNe =>
      rw [if_neg hNe] at hLive
      exact h.held o' hLive hNot
  case registered =>
    obtain ⟨hNodup, hMem⟩ := h.registered
    have hFresh : p ∉ s.registry := by
      intro hIn
      obtain ⟨target, hSome⟩ := (hMem p).mp hIn
      rw [hp] at hSome
      cases hSome
    by_cases hDart : script = .dart
    · subst hDart
      refine ⟨List.nodup_cons.mpr ⟨hFresh, hNodup⟩, fun q => ?_⟩
      show q ∈ p :: s.registry ↔ _
      rw [List.mem_cons, hMem q]
      by_cases hEq : q = p
      · subst hEq
        exact iff_of_true (.inl rfl) ⟨some o, Function.update_self _ _ _⟩
      · simp only [State.added, Function.update_of_ne hEq, hEq, false_or]
    · have hRegistry : (s.added script o p l).registry = s.registry := if_neg hDart
      rw [hRegistry]
      refine ⟨hNodup, fun q => ?_⟩
      rw [hMem q]
      by_cases hEq : q = p
      · subst hEq
        refine iff_of_false (by simp [hp]) ?_
        rintro ⟨target, hq⟩
        rcases hCases hq with ⟨-, hIns⟩ | ⟨hNe, -⟩
        · exact hDart (ScriptInstance.mk.inj hIns).1.symm
        · exact hNe rfl
      · simp only [State.added, Function.update_of_ne hEq]

theorem linked_removed (h : Linked s) (hp : s.instances p = some ⟨script, some o⟩)
    (ho : s.scripts o = some l) (hCount : s.initializing o → 1 < s.count o) :
    Linked (s.removed script o p l) := by
  have hMem : p ∈ l := (h.mem_iff ho).mpr ⟨script, hp⟩
  have hNodup := h.nodup o l ho
  have hLength := h.length o l ho
  have hErased := List.length_erase_of_mem hMem
  have hPos := List.length_pos_of_mem hMem
  have hScripts : ∀ {o' l'}, (s.removed script o p l).scripts o' = some l' →
      (o' = o ∧ l' = l.erase p ∧ s.count o ≠ 1) ∨ (o' ≠ o ∧ s.scripts o' = some l') := by
    intro o' l' h'
    simp only [State.removed, Function.update_apply] at h'
    split at h'
    · next hEq =>
      split at h'
      · cases h'
      · next hMore => exact .inl ⟨hEq, (Option.some.inj h').symm, hMore⟩
    · next hNe => exact .inr ⟨hNe, h'⟩
  have hCases : ∀ {q ins}, (s.removed script o p l).instances q = some ins →
      q ≠ p ∧ s.instances q = some ins := by
    intro q ins hq
    simp only [State.removed, Function.update_apply] at hq
    split at hq
    · cases hq
    · next hNe => exact ⟨hNe, hq⟩
  have hInstances : ∀ {q : Nat}, q ≠ p → (s.removed script o p l).instances q = s.instances q :=
    fun hq => Function.update_of_ne hq _ _
  constructor
  case nodup =>
    intro o' l' h'
    rcases hScripts h' with ⟨-, rfl, -⟩ | ⟨-, h'⟩
    · exact hNodup.erase p
    · exact h.nodup o' l' h'
  case length =>
    intro o' l' h'
    rcases hScripts h' with ⟨rfl, rfl, -⟩ | ⟨hNe, h'⟩
    · simp only [State.removed, Function.update_self]
      omega
    · simp only [State.removed, Function.update_of_ne hNe]
      exact h.length o' l' h'
  case listed =>
    intro o' l' q h' hq
    rcases hScripts h' with ⟨rfl, rfl, -⟩ | ⟨hNe, h'⟩
    · obtain ⟨hqp, hq⟩ := hNodup.mem_erase_iff.mp hq
      rw [hInstances hqp]
      exact h.listed _ l q ho hq
    · obtain ⟨other, hSome⟩ := h.listed o' l' q h' hq
      have hqp : q ≠ p := by
        rintro rfl
        rw [hp] at hSome
        exact hNe (Option.some.inj (ScriptInstance.mk.inj (Option.some.inj hSome)).2).symm
      exact ⟨other, (hInstances hqp).trans hSome⟩
  case target =>
    intro q ins hq
    obtain ⟨hqp, hq⟩ := hCases hq
    obtain ⟨o', l', hTarget, h', hIn⟩ := h.target q ins hq
    by_cases hEq : o' = o
    · subst hEq
      obtain rfl := Option.some.inj (ho.symm.trans h')
      -- the other instance holds the object as well
      have hOther : q ∈ l.erase p := hNodup.mem_erase_iff.mpr ⟨hqp, hIn⟩
      have hTwo := List.length_pos_of_mem hOther
      refine ⟨o', l.erase p, hTarget, ?_, hOther⟩
      simp only [State.removed, Function.update_self]
      rw [if_neg (by omega)]
    · exact ⟨o', l', hTarget, (Function.update_of_ne hEq _ _).trans h', hIn⟩
  case single =>
    intro q r ins hq hr
    exact h.single q r ins (hCases hq).2 (hCases hr).2
  case held =>
    intro o' hLive hNot
    simp only [State.removed, Function.update_apply] at hLive ⊢
    split
    · next hEq =>
      subst hEq
      rw [if_pos rfl] at hLive
      have hMore : s.count o' ≠ 1 := by
        intro hOne
        rw [if_pos hOne] at hLive
        exact hLive rfl
      omega
    · next hNe =>
      rw [if_neg hNe] at hLive
      exact h.held o' hLive hNot
  case registered =>
    obtain ⟨hRegistry, hIff⟩ := h.registered
    by_cases hDart : script = .dart
    · subst hDart
      refine ⟨hRegistry.erase p, fun q => ?_⟩
      show q ∈ s.registry.erase p ↔ _
      rw [hRegistry.mem_erase_iff, hIff q]
      constructor
      · rintro ⟨hqp, target, hq⟩
        exact ⟨target, (hInstances hqp).trans hq⟩
      · rintro ⟨target, hq⟩
        obtain ⟨hqp, hq⟩ := hCases hq
        exact ⟨hqp, target, hq⟩
    · have hSame : (s.removed script o p l).registry = s.registry := if_neg hDart
      rw [hSame]
      refine ⟨hRegistry, fun q => ?_⟩
      rw [hIff q]
      by_cases hqp : q = p
      · subst hqp
        refine iff_of_false ?_ ?_
        · rintro ⟨target, hq⟩
          rw [hp] at hq
          exact hDart (ScriptInstance.mk.inj (Option.some.inj hq)).1
        · rintro ⟨target, hq⟩
          exact (hCases hq).1 rfl
      · rw [hInstances hqp]

end Instances

/-! ### Counting -/

/-- What does not change what lives and what is in the lists. -/
theorem Linked.frame {s t : State} (h : Linked s) (hScripts : t.scripts = s.scripts)
    (hInstances : t.instances = s.instances) (hRegistry : t.registry = s.registry)
    (hLength : ∀ o l, s.scripts o = some l → l.length ≤ t.count o)
    (hHeld : ∀ o, s.scripts o ≠ none → ¬ t.initializing o → 0 < t.count o) : Linked t := by
  constructor
  case nodup => exact fun o l ho => h.nodup o l (hScripts ▸ ho)
  case length => exact fun o l ho => hLength o l (hScripts ▸ ho)
  case listed =>
    intro o l p ho hp
    rw [hInstances]
    exact h.listed o l p (hScripts ▸ ho) hp
  case target =>
    intro p ins hp
    rw [hScripts]
    exact h.target p ins (hInstances ▸ hp)
  case single => exact fun p q ins hp hq => h.single p q ins (hInstances ▸ hp) (hInstances ▸ hq)
  case held => exact fun o ho hNot => hHeld o (hScripts ▸ ho) hNot
  case registered =>
    rw [hRegistry, hInstances]
    exact h.registered

section Counting

variable {s : State} {o : Nat} {l : List Nat}

theorem Linked.no_target (h : Linked s) (ho : s.scripts o = none) (p : Nat) (script : Script) :
    s.instances p ≠ some ⟨script, some o⟩ := by
  intro hp
  obtain ⟨o', l, hTarget, hScripts, -⟩ := h.target p _ hp
  obtain rfl := Option.some.inj hTarget
  rw [ho] at hScripts
  cases hScripts

/-- A new object. -/
theorem linked_fresh (h : Linked s) (ho : s.scripts o = none) (n : Nat) {t : State}
    (hScripts : t.scripts = Function.update s.scripts o (some []))
    (hCount : t.count = Function.update s.count o n) (hInstances : t.instances = s.instances)
    (hRegistry : t.registry = s.registry) (hPending : ∀ o, s.initializing o → t.initializing o)
    (hHeld : t.initializing o ∨ 0 < n) : Linked t := by
  have hCases : ∀ {o' l'}, t.scripts o' = some l' →
      (o' = o ∧ l' = []) ∨ (o' ≠ o ∧ s.scripts o' = some l') := by
    intro o' l' h'
    rw [hScripts, Function.update_apply] at h'
    split at h'
    · next hEq => exact .inl ⟨hEq, (Option.some.inj h').symm⟩
    · next hNe => exact .inr ⟨hNe, h'⟩
  constructor
  case nodup =>
    intro o' l' h'
    rcases hCases h' with ⟨-, rfl⟩ | ⟨-, h'⟩
    · exact List.nodup_nil
    · exact h.nodup o' l' h'
  case length =>
    intro o' l' h'
    rcases hCases h' with ⟨-, rfl⟩ | ⟨hNe, h'⟩
    · exact Nat.zero_le _
    · rw [hCount, Function.update_of_ne hNe]
      exact h.length o' l' h'
  case listed =>
    intro o' l' p h' hp
    rcases hCases h' with ⟨-, rfl⟩ | ⟨-, h'⟩
    · cases hp
    · rw [hInstances]
      exact h.listed o' l' p h' hp
  case target =>
    intro p ins hp
    rw [hInstances] at hp
    obtain ⟨o', l', hTarget, h', hMem⟩ := h.target p ins hp
    have hNe : o' ≠ o := by
      rintro rfl
      rw [ho] at h'
      cases h'
    exact ⟨o', l', hTarget, by rw [hScripts, Function.update_of_ne hNe, h'], hMem⟩
  case single => exact fun p q ins hp hq => h.single p q ins (hInstances ▸ hp) (hInstances ▸ hq)
  case held =>
    intro o' hLive hNot
    rw [hScripts, Function.update_apply] at hLive
    rw [hCount, Function.update_apply]
    split
    · next hEq => exact hHeld.resolve_left (hEq ▸ hNot)
    · next hNe =>
      rw [if_neg hNe] at hLive
      exact h.held o' hLive fun hIn => hNot (hPending o' hIn)
  case registered =>
    rw [hRegistry, hInstances]
    exact h.registered

theorem retain_eq (ho : s.scripts o = some l) :
    s.retain o = .ok { s with count := Function.update s.count o (s.count o + 1) } := by
  rw [State.retain, getScripts_eq ho]
  rfl

theorem linked_retained (h : Linked s) :
    Linked { s with count := Function.update s.count o (s.count o + 1) } := by
  refine h.frame rfl rfl rfl ?_ ?_
  · intro o' l' ho'
    have hLength := h.length o' l' ho'
    simp only [Function.update_apply]
    split
    · next hEq =>
      subst hEq
      omega
    · exact hLength
  · intro o' ho' hNot
    simp only [Function.update_apply]
    split
    · exact Nat.succ_pos _
    · exact h.held o' ho' hNot

/-- One of the references that are not those of instances goes. -/
theorem release_spec (h : Linked s) (ho : s.scripts o = some l) (hOwn : l.length < s.count o)
    (hCount : s.initializing o → 1 < s.count o) :
    ∃ scripts count, s.release o = .ok { s with scripts, count } ∧ Linked { s with scripts, count } ∧
      ∀ o', s.scripts o' ≠ none → s.initializing o' → scripts o' ≠ none := by
  rw [State.release, getScripts_eq ho]
  simp only [Transition.ok_bind, Function.update_self]
  by_cases hOne : s.count o = 1
  · -- nobody holds the object any more
    have hNil : l = [] := List.eq_nil_of_length_eq_zero (by omega)
    subst hNil
    have hScripts : State.getScripts o
        { s with count := Function.update s.count o (s.count o - 1) } = .ok [] := getScripts_eq ho
    rw [if_pos (by omega), State.deleteObject, hScripts]
    refine ⟨_, _, rfl, ?_, ?_⟩
    · have hCases : ∀ {o' l'}, Function.update s.scripts o none o' = some l' →
          o' ≠ o ∧ s.scripts o' = some l' := by
        intro o' l' h'
        rw [Function.update_apply] at h'
        split at h'
        · cases h'
        · next hNe => exact ⟨hNe, h'⟩
      constructor
      case nodup => exact fun o' l' h' => h.nodup o' l' (hCases h').2
      case length =>
        intro o' l' h'
        simp only [Function.update_of_ne (hCases h').1]
        exact h.length o' l' (hCases h').2
      case listed => exact fun o' l' p h' hp => h.listed o' l' p (hCases h').2 hp
      case target =>
        intro p ins hp
        obtain ⟨o', l', hTarget, h', hMem⟩ := h.target p ins hp
        have hNe : o' ≠ o := by
          rintro rfl
          obtain rfl := Option.some.inj (ho.symm.trans h')
          cases hMem
        exact ⟨o', l', hTarget, (Function.update_of_ne hNe _ _).trans h', hMem⟩
      case single => exact h.single
      case held =>
        intro o' hLive hNot
        simp only [Function.update_apply] at hLive ⊢
        split
        · next hEq => exact absurd (if_pos hEq) hLive
        · next hNe =>
          rw [if_neg hNe] at hLive
          exact h.held o' hLive hNot
      case registered => exact h.registered
    · intro o' hLive hIn
      have hNe : o' ≠ o := by
        rintro rfl
        have := hCount hIn
        omega
      rwa [Function.update_of_ne hNe]
  · rw [if_neg (by omega)]
    refine ⟨s.scripts, _, rfl, ?_, fun _ hLive _ => hLive⟩
    refine h.frame rfl rfl rfl ?_ ?_
    · intro o' l' ho'
      simp only [Function.update_apply]
      split
      · next hEq =>
        subst hEq
        obtain rfl := Option.some.inj (ho.symm.trans ho')
        omega
      · exact h.length o' l' ho'
    · intro o' ho' hNot
      simp only [Function.update_apply]
      split
      · omega
      · exact h.held o' ho' hNot

end Counting

end RetroConfig.Identity
