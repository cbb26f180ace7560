import InstrumentFlow.Engine.Propagation
import InstrumentFlow.Proofs.Forest.Sound

/-!
# Calm changes

Most of what a running program does leaves alone which instances there are, how they hang together
and which components wait. Such changes are calm.

* `Instance.frame` -- an instance without the contents that its flow works with;
* `Fits` -- an instance has the places that its flow asks for;
* `Event.isLife` -- the events of the lives of instances;
* `Calm` -- the definition, the frames of all instances, the entries and the lives stay;
* `Calm.back`, `Calm.forth`, `Calm.fits` -- what a calm change keeps.
-/

namespace InstrumentFlow

/-! ## 1. Frames -/

namespace Instance

/-- An instance without the contents of its places. -/
def frame (s : Instance) : Instance :=
  { s with
    failed := false
    values := Array.replicate s.values.size .undefined
    progress := Array.replicate s.progress.size none }

@[simp] theorem frame_setValue (s : Instance) (slot : Nat) (v : Value) :
    (s.setValue slot v).frame = s.frame := by
  simp [frame, setValue]

@[simp] theorem frame_setProgress (s : Instance) (component : Nat) (p : Option Progress) :
    (s.setProgress component p).frame = s.frame := by
  simp [frame, setProgress]

@[simp] theorem frame_failed (s : Instance) (failed : Bool) :
    ({ s with failed } : Instance).frame = s.frame := rfl

section

variable {s t : Instance} (h : s.frame = t.frame)
include h

theorem flow_of_frame : s.flow = t.flow := congrArg (·.flow) h

theorem isAction_of_frame : s.isAction = t.isAction := congrArg (·.isAction) h

theorem asyncCount_of_frame : s.asyncCount = t.asyncCount := congrArg (·.asyncCount) h

theorem parent_of_frame : s.parent = t.parent := congrArg (·.parent) h

theorem children_of_frame : s.children = t.children := congrArg (·.children) h

theorem inputCount_of_frame : s.inputCount = t.inputCount := congrArg (·.inputCount) h

theorem async_of_frame : s.async = t.async := congrArg (·.async) h

theorem valuesSize_of_frame : s.values.size = t.values.size := by
  simpa [frame] using congrArg (·.values.size) h

theorem progressSize_of_frame : s.progress.size = t.progress.size := by
  simpa [frame] using congrArg (·.progress.size) h

theorem links_of_frame : s.links = t.links := by
  unfold links
  rw [isAction_of_frame h, parent_of_frame h, children_of_frame h]

end

end Instance

/-- **An instance has the places that its flow asks for**: its slots are the inputs and the local
    variables, each component has a place for progress and a mark, and the marks are counted. -/
structure Fits (d : Definition) (s : Instance) : Prop where
  flow : ∃ f, d.flows[s.flow]? = some f ∧ s.inputCount = f.inputCount
    ∧ s.values.size = f.inputCount + f.locals.length
    ∧ s.progress.size = f.components.length ∧ s.async.size = f.components.length
  asyncCount_eq : s.asyncCount = s.async.count true

theorem Fits.of_frame {d : Definition} {s t : Instance} (ht : Fits d t) (h : s.frame = t.frame) :
    Fits d s := by
  obtain ⟨f, hf, hinput, hvalues, hprogress, hasync⟩ := ht.flow
  refine ⟨⟨f, ?_, ?_, ?_, ?_, ?_⟩, ?_⟩
  · rw [Instance.flow_of_frame h, hf]
  · rw [Instance.inputCount_of_frame h, hinput]
  · rw [Instance.valuesSize_of_frame h, hvalues]
  · rw [Instance.progressSize_of_frame h, hprogress]
  · rw [Instance.async_of_frame h, hasync]
  · rw [Instance.asyncCount_of_frame h, Instance.async_of_frame h, ht.asyncCount_eq]

/-! ## 2. The lives of instances -/

/-- Whether an event is part of the life of an instance: its beginning, its end, and what its
    components wait for. -/
def Event.isLife : Event → Bool
  | created _ _ | destroyed _ | awaited _ _ _ | released _ _ _ => true
  | _ => false

namespace Engine

/-- The events of the lives of instances, the latest first. -/
def lives (e : Engine) : List Event := e.journal.filter Event.isLife

/-- What is known of an entry without its content: its generation, and whether it is in use. -/
def entryUse (e : Engine) (n : Nat) : Option (UInt32 × Bool) :=
  e.forest.entries[n]?.map fun entry => (entry.generation, entry.content.isSome)

/-- Who is there after a change of one instance. -/
theorem instance?_modifyInstance (e : Engine) (i j : InstanceId) (change : Instance → Instance) :
    (e.modifyInstance i change).instance? j
      = if j = i then (e.instance? i).map change else e.instance? j :=
  Forest.get?_modify e.forest i change j

/-! ## 3. Calm changes -/

/-- **A calm change**: every instance keeps its frame, no entry comes into or out of use, and
    nothing happens in the life of an instance. -/
structure Calm (e e' : Engine) : Prop where
  definition : e'.definition = e.definition
  frames : ∀ i, (e'.instance? i).map Instance.frame = (e.instance? i).map Instance.frame
  sound : e.forest.Sound → e'.forest.Sound
  entries : ∀ n, e'.entryUse n = e.entryUse n
  live : e'.forest.live = e.forest.live
  lives : e'.lives = e.lives

namespace Calm

theorem refl (e : Engine) : Calm e e := ⟨rfl, fun _ => rfl, id, fun _ => rfl, rfl, rfl⟩

theorem trans {e e' e'' : Engine} (h : Calm e e') (h' : Calm e' e'') : Calm e e'' where
  definition := h'.definition.trans h.definition
  frames i := (h'.frames i).trans (h.frames i)
  sound hs := h'.sound (h.sound hs)
  entries n := (h'.entries n).trans (h.entries n)
  live := h'.live.trans h.live
  lives := h'.lives.trans h.lives

/-- Changes outside the forest and the journal are calm. -/
theorem of_eq {e e' : Engine} (hd : e'.definition = e.definition) (hf : e'.forest = e.forest)
    (hj : e'.journal = e.journal) : Calm e e' where
  definition := hd
  frames i := by unfold instance?; rw [hf]
  sound hs := hf ▸ hs
  entries n := by unfold entryUse; rw [hf]
  live := by rw [hf]
  lives := by unfold Engine.lives; rw [hj]

/-- An event outside the lives of instances is calm. -/
theorem record (e : Engine) {event : Event} (h : event.isLife = false) :
    Calm e (e.record event) where
  definition := rfl
  frames _ := rfl
  sound := id
  entries _ := rfl
  live := rfl
  lives := by
    show List.filter _ (event :: e.journal) = _
    rw [List.filter_cons_of_neg (by simp [h])]
    rfl

theorem modifyInstance (e : Engine) (i : InstanceId) {change : Instance → Instance}
    (hc : ∀ s, (change s).frame = s.frame) : Calm e (e.modifyInstance i change) where
  definition := rfl
  frames j := by
    rw [instance?_modifyInstance]
    split
    · next h =>
      rw [h, Option.map_map]
      exact congrArg (fun g => (e.forest.get? i).map g) (funext hc)
    · rfl
  sound hs := hs.modify i fun s => Instance.links_of_frame (hc s)
  entries n := Forest.entry_modify e.forest i change n
  live := rfl
  lives := rfl

section

variable {e e' : Engine} (h : Calm e e') {i : InstanceId}
include h

/-- Every instance was there before, in the same frame. -/
theorem back {s' : Instance} (hs : e'.instance? i = some s') :
    ∃ s, e.instance? i = some s ∧ s'.frame = s.frame := by
  have hi := h.frames i
  rw [hs] at hi
  obtain ⟨s, hs, he⟩ := Option.map_eq_some_iff.mp hi.symm
  exact ⟨s, hs, he.symm⟩

/-- Every instance is still there, in the same frame. -/
theorem forth {s : Instance} (hs : e.instance? i = some s) :
    ∃ s', e'.instance? i = some s' ∧ s'.frame = s.frame := by
  have hi := h.frames i
  rw [hs] at hi
  exact Option.map_eq_some_iff.mp hi

theorem none_iff : e'.instance? i = none ↔ e.instance? i = none := by
  have hi := h.frames i
  rw [← Option.map_eq_none_iff (f := Instance.frame), hi, Option.map_eq_none_iff]

theorem contains_eq : e'.forest.contains i = e.forest.contains i := by
  have hi := congrArg Option.isSome (h.frames i)
  rwa [Option.isSome_map, Option.isSome_map] at hi

omit i in
theorem isCaller_iff (p k : InstanceId) : e'.forest.IsCaller p k ↔ e.forest.IsCaller p k := by
  have hlinks (j : InstanceId) :
      (e'.forest.get? j).map Instance.links = (e.forest.get? j).map Instance.links := by
    have hj := congrArg (Option.map Instance.links) (h.frames j)
    rwa [Option.map_map, Option.map_map] at hj
  exact ⟨Forest.isCaller_of_links hlinks, Forest.isCaller_of_links fun j => (hlinks j).symm⟩

/-- Every instance still has the places that its flow asks for. -/
theorem fits (hfits : ∀ i s, e.instance? i = some s → Fits e.definition s) (i : InstanceId)
    (s' : Instance) (hs' : e'.instance? i = some s') : Fits e'.definition s' := by
  obtain ⟨s, hs, he⟩ := h.back hs'
  rw [h.definition]
  exact (hfits i s hs).of_frame he

end

end Calm

/-! ## 4. Small calm changes -/

theorem calm_writeSlot (e : Engine) (i : InstanceId) (slot : Nat) (v : Value) :
    Calm e (e.writeSlot i slot v) :=
  (Calm.modifyInstance e i fun s => s.frame_setValue slot v).trans (Calm.record _ rfl)

theorem calm_clearSlot (e : Engine) (i : InstanceId) (slot : Nat) :
    Calm e (e.clearSlot i slot) := by
  unfold clearSlot
  split
  · split
    · exact Calm.refl e
    · exact calm_writeSlot e i slot _
  · exact Calm.refl e

theorem calm_offerSlot (e : Engine) (i : InstanceId) (slot : Nat) (held v : Value) :
    Calm e (e.offerSlot i slot held v) := by
  unfold offerSlot
  split
  · exact Calm.refl e
  · exact calm_writeSlot e i slot v
  · have h : Calm e (e.breakDown .endlessArray) := Calm.of_eq rfl rfl rfl
    exact h.trans (calm_writeSlot _ i slot v)

end Engine

end InstrumentFlow
