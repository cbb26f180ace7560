import InstrumentFlow.Proofs.Builders.Workshop
import InstrumentFlow.Proofs.Validity

/-!
# Definitions that builders make are sound

Whoever names to a builder only what it has handed out gets a definition in which every input, every
component and every output is there that anything leads to. What no builder sees to is that a
component that calls a flow was given one.

* `Draft.Allows`, `Workshop.Allows`, `AllowsAll` -- calls that name only what was handed out;
* `Connection.Fits`, `Component.Fits` -- what is named in a flow is there;
* `Component.Fits.grown` -- and stays there;
* `Component.Fits.perform`, `Draft.Sound.perform`, `Workshop.Sound.perform` -- what one call to any
  builder keeps sound;
* `Workshop.Sound.after` -- and a row of calls;
* `Workshop.Sound.connects_after` -- a connection that is made stays;
* `builders_make_sound` -- **which definitions that are made this way are sound**, and what is in
  them;
* `not_every_built_sound` -- a flow that was named for a call, and is called no more.
-/

namespace InstrumentFlow

open Bytecode

/-! ## 1. Calls with numbers that were handed out -/

/-- The inputs that a call names. -/
def ComponentCall.slots : ComponentCall → List UInt16
  | inputs slots => slots
  | _ => []

/-- **The call names only what this builder has handed out**, inputs and components. -/
def Draft.Allows (d : Draft) : FlowCall → Prop
  | .input _ | .local _ => True
  | .component _ calls => ∀ call ∈ calls, call.slots ⊆ d.slots
  | .connect source _ target slot =>
    source ∈ d.components ∧ target ∈ d.components ∧ slot ∈ d.slots

instance (d : Draft) : (call : FlowCall) → Decidable (d.Allows call)
  | .input _ | .local _ => .isTrue trivial
  | .component _ calls =>
    inferInstanceAs (Decidable (∀ call ∈ calls, call.slots ⊆ d.slots))
  | .connect .. => inferInstanceAs (Decidable (_ ∧ _ ∧ _))

namespace Workshop

/-- **The call goes to a builder that there is**, and names only what this one has handed out. -/
def Allows (w : Workshop) : DefinitionCall → Prop
  | .constant _ | .global _ | .newFlow _ => True
  | .inFlow draft call => ∃ d ∈ w.drafts[draft]?, d.Allows call
  | .addFlow draft => draft < w.drafts.length

instance (w : Workshop) : (call : DefinitionCall) → Decidable (w.Allows call)
  | .constant _ | .global _ | .newFlow _ => .isTrue trivial
  | .inFlow draft call => inferInstanceAs (Decidable (∃ d ∈ w.drafts[draft]?, d.Allows call))
  | .addFlow draft => inferInstanceAs (Decidable (draft < w.drafts.length))

/-- Every one of the calls names only what was handed out before it. -/
def AllowsAll (w : Workshop) : List DefinitionCall → Prop
  | [] => True
  | call :: calls => w.Allows call ∧ (w.perform call).AllowsAll calls

instance decidableAllowsAll (w : Workshop) :
    (calls : List DefinitionCall) → Decidable (w.AllowsAll calls)
  | [] => .isTrue trivial
  | call :: calls =>
    have := decidableAllowsAll (w.perform call) calls
    inferInstanceAs (Decidable (w.Allows call ∧ _))

theorem allowsAll_append {w : Workshop} {before later : List DefinitionCall} :
    w.AllowsAll (before ++ later) ↔ w.AllowsAll before ∧ (w.after before).AllowsAll later := by
  induction before generalizing w with
  | nil => exact ⟨fun h => ⟨trivial, h⟩, fun h => h.2⟩
  | cons call before ih =>
    have hcons : w.AllowsAll (call :: (before ++ later))
        ↔ w.Allows call ∧ (w.perform call).AllowsAll (before ++ later) := Iff.rfl
    rw [List.cons_append, hcons, ih, ← and_assoc]
    rfl

end Workshop

/-! ## 2. What fits into a flow -/

/-- **A connection fits into a flow**: the component and the input to which it leads are there, and
    it carries a pulse exactly if that input takes one. -/
structure Connection.Fits (f : Flow) (k : Connection) : Prop where
  component : k.targetComponent.toNat < f.components.length
  input : k.targetInput.toNat < f.inputCount
  isSequence : k.isSequence = f.isSequenceInput k.targetInput.toNat

/-- **A component fits into a flow**: its inputs, the output of its errors and the ends of its
    connections are there, and its properties have an end. -/
structure Component.Fits (f : Flow) (c : Component) : Prop where
  inputs : ∀ slot ∈ c.inputs, slot.toNat < f.inputCount
  catchOutput : ∀ output ∈ c.catchOutput, output.toNat < c.outputs.length
  properties : ∀ p ∈ c.properties, .stop ∈ scan p.instructions
  connections : ∀ o ∈ c.outputs, ∀ k ∈ o.connections, k.Fits f

variable {f f' : Flow}

theorem Connection.Fits.grown {k : Connection} (h : k.Fits f) (hf : f.Grown f') : k.Fits f' where
  component := Nat.lt_of_lt_of_le h.component hf.components.length_le
  input := Nat.lt_of_lt_of_le h.input hf.inputFlags.length_le
  isSequence := by rw [h.isSequence, hf.isSequenceInput h.input]

namespace Component

variable {c : Component}

/-- What fits into a flow fits into what it has grown to. -/
theorem Fits.grown (h : c.Fits f) (hf : f.Grown f') : c.Fits f' where
  inputs slot hslot := Nat.lt_of_lt_of_le (h.inputs slot hslot) hf.inputFlags.length_le
  catchOutput := h.catchOutput
  properties := h.properties
  connections o ho k hk := (h.connections o ho k hk).grown hf

/-- **A component that fits has at most one flaw**: the flow that it calls is missing. -/
theorem Fits.flaw?_eq_none_iff (h : c.Fits f) {flowCount : Nat} :
    c.flaw? flowCount f = none ↔ c.CallsFlow flowCount := by
  have hinputs := inputFlaw?_eq_none_iff.mpr h.inputs
  have hcatch := catchFlaw?_eq_none_iff.mpr h.catchOutput
  have hproperties := propertyFlaw?_eq_none_iff.mpr fun p hp => .inr (h.properties p hp)
  have hconnections := connectionFlaw?_eq_none_iff.mpr fun o ho k hk =>
    ⟨(h.connections o ho k hk).component, (h.connections o ho k hk).input⟩
  rw [Component.flaw?_eq_none_iff, callFlaw?_eq_none_iff]
  simp [hinputs, hcatch, hproperties, hconnections]

/-! ## 3. Calls to the builder of a component -/

theorem fits_ofKind (f : Flow) (kind : Kind) : (ofKind kind).Fits f := by
  constructor <;> simp [ofKind]

/-- Outputs that are made have no connections. -/
theorem Fits.withOutputs (h : c.Fits f) (count : Nat) : (c.withOutputs count).Fits f where
  inputs := h.inputs
  catchOutput output houtput := by
    have hlt := h.catchOutput output houtput
    simp only [Component.withOutputs, List.length_append]
    omega
  properties := h.properties
  connections o ho k hk := by
    obtain ho | ho := List.mem_append.mp ho
    · exact h.connections o ho k hk
    · rw [List.eq_of_mem_replicate ho] at hk
      cases hk

/-- An output for errors that is missing is made. -/
theorem Fits.withCatchOutput (h : c.Fits f) (output : UInt16) :
    (c.withCatchOutput output).Fits f where
  inputs := h.inputs
  catchOutput := by
    intro o ho
    cases ho
    simp only [Component.withCatchOutput, Component.withOutputs, List.length_append,
      List.length_replicate]
    omega
  properties := h.properties
  connections := (h.withOutputs (output.toNat + 1)).connections

/-- **A call to the builder of a component** that names only inputs that are there. -/
theorem Fits.perform (h : c.Fits f) {call : ComponentCall}
    (hslots : ∀ slot ∈ call.slots, slot.toNat < f.inputCount) : (c.perform call).Fits f := by
  cases call with
  | inputs slots =>
    refine ⟨fun slot hslot => ?_, h.catchOutput, h.properties, h.connections⟩
    obtain hslot | hslot := List.mem_append.mp hslot
    · exact h.inputs slot hslot
    · exact hslots slot hslot
  | property a =>
    refine ⟨h.inputs, h.catchOutput, fun p hp => ?_, h.connections⟩
    obtain hp | hp := List.mem_append.mp hp
    · exact h.properties p hp
    · rw [List.mem_singleton.mp hp]
      exact stop_mem_scan_encode a.instructions
  | outputs count => exact h.withOutputs count
  | catchOutput output => exact h.withCatchOutput output
  | payload _ | target _ | breakpoint =>
    exact ⟨h.inputs, h.catchOutput, h.properties, h.connections⟩

theorem Fits.fitted (h : c.Fits f) {calls : List ComponentCall}
    (hslots : ∀ call ∈ calls, ∀ slot ∈ call.slots, slot.toNat < f.inputCount) :
    (c.fitted calls).Fits f := by
  induction calls generalizing c with
  | nil => exact h
  | cons call calls ih =>
    have hcall := h.perform (hslots call List.mem_cons_self)
    exact ih hcall fun later hlater => hslots later (List.mem_cons_of_mem _ hlater)

/-- A connection that fits is added. -/
theorem Fits.addConnection (h : c.Fits f) (output : Nat) {k : Connection} (hk : k.Fits f) :
    (c.addConnection output k).Fits f where
  inputs := h.inputs
  catchOutput o ho := by
    have hlt := (h.withOutputs (output + 1)).catchOutput o ho
    simp only [Component.addConnection, List.length_modify]
    exact hlt
  properties := h.properties
  connections o ho k' hk' := by
    have hthere := (h.withOutputs (output + 1)).connections
    obtain ho | ⟨b, hb, _, rfl⟩ := mem_modify ho
    · exact hthere o ho k' hk'
    · obtain hk' | hk' := List.mem_append.mp hk'
      · exact hthere b hb k' hk'
      · rw [List.mem_singleton.mp hk']
        exact hk

end Component

/-! ## 4. Calls to the builder of a flow -/

/-- **A flow in the hands of its builder is sound**: what was handed out is there, and every
    component fits. -/
structure Draft.Sound (d : Draft) : Prop where
  slots : ∀ slot ∈ d.slots, slot.toNat < d.flow.inputCount
  components : ∀ number ∈ d.components, number < d.flow.components.length
  fits : ∀ c ∈ d.flow.components, c.Fits d.flow

theorem Draft.sound_named (name : String) : Draft.Sound { flow := .named name } := by
  constructor <;> simp [Flow.named]

/-- The number of the last of some things is less than their count, also if it was cut. -/
theorem toNat_lastIndex_lt {count : Nat} (h : 0 < count) : (lastIndex count).toNat < count := by
  have hle := Nat.mod_le (count - 1) (2 ^ 16)
  rw [lastIndex, UInt16.toNat_ofNat']
  omega

/-- **A call to the builder of a flow** that names only what was handed out. -/
theorem Draft.Sound.perform {d : Draft} (h : d.Sound) {call : FlowCall} (hcall : d.Allows call) :
    (d.perform call).Sound := by
  have hgrown := d.grown_perform call
  cases call with
  | input flags =>
    refine ⟨fun slot hslot => ?_, h.components, fun c hc => (h.fits c hc).grown hgrown⟩
    obtain hslot | hslot := List.mem_append.mp hslot
    · exact Nat.lt_of_lt_of_le (h.slots slot hslot) hgrown.inputFlags.length_le
    · rw [List.mem_singleton.mp hslot]
      exact toNat_lastIndex_lt (by simp)
  | «local» l => exact ⟨h.slots, h.components, fun c hc => (h.fits c hc).grown hgrown⟩
  | component kind calls =>
    refine ⟨h.slots, fun number hnumber => ?_, fun c hc => ?_⟩
    · have hmore : (d.perform (.component kind calls)).flow.components.length
          = d.flow.components.length + 1 := List.length_append
      obtain hnumber | hnumber := List.mem_append.mp hnumber
      · have hlt := h.components number hnumber
        omega
      · have hlast : number = d.flow.components.length := List.mem_singleton.mp hnumber
        omega
    · obtain hc | hc := List.mem_append.mp hc
      · exact (h.fits c hc).grown hgrown
      · rw [List.mem_singleton.mp hc]
        have hslots : ∀ call ∈ calls, ∀ slot ∈ call.slots, slot.toNat < d.flow.inputCount :=
          fun call hin slot hslot => h.slots slot (hcall call hin hslot)
        exact ((Component.fits_ofKind d.flow kind).fitted hslots).grown hgrown
  | connect source output target slot =>
    obtain ⟨_, htarget, hslot⟩ := hcall
    have hk : Connection.Fits d.flow
        ⟨UInt16.ofNat target, slot, d.flow.isSequenceInput slot.toNat⟩ := by
      have hle := Nat.mod_le target (2 ^ 16)
      have hlt := h.components target htarget
      refine ⟨?_, h.slots slot hslot, rfl⟩
      rw [UInt16.toNat_ofNat']
      omega
    refine ⟨h.slots, fun number hnumber => ?_, fun c hc => ?_⟩
    · exact Nat.lt_of_lt_of_le (h.components number hnumber) hgrown.components.length_le
    · obtain hc | ⟨b, hb, _, rfl⟩ := mem_modify hc
      · exact (h.fits c hc).grown hgrown
      · exact ((h.fits b hb).addConnection output hk).grown hgrown

/-! ## 5. Calls to any builders -/

namespace Workshop

/-- **What is under construction is sound**: the reserved constants are in front, and the flows in
    the hands of their builders and in the definition are sound. -/
structure Sound (w : Workshop) : Prop where
  constants : [.undefined, .null] <+: w.definition.constants
  drafts : ∀ d ∈ w.drafts, d.Sound
  flows : ∀ f ∈ w.definition.flows, ∀ c ∈ f.components, c.Fits f

theorem sound_empty : Sound {} where
  constants := List.prefix_refl _
  drafts := nofun
  flows := nofun

variable {w : Workshop}

/-- **One call** that names only what was handed out. -/
theorem Sound.perform (h : w.Sound) {call : DefinitionCall} (hcall : w.Allows call) :
    (w.perform call).Sound := by
  cases call with
  | constant l => exact ⟨h.constants.trans (List.prefix_append _ _), h.drafts, h.flows⟩
  | global l => exact ⟨h.constants, h.drafts, h.flows⟩
  | newFlow name =>
    refine ⟨h.constants, fun d hd => ?_, h.flows⟩
    obtain hd | hd := List.mem_append.mp hd
    · exact h.drafts d hd
    · rw [List.mem_singleton.mp hd]
      exact Draft.sound_named name
  | inFlow draft call =>
    obtain ⟨d, hd, hallows⟩ := hcall
    refine ⟨h.constants, fun d' hd' => ?_, h.flows⟩
    obtain hd' | ⟨b, hb, hplace, rfl⟩ := mem_modify hd'
    · exact h.drafts d' hd'
    · obtain rfl : d = b := Option.some.inj (hd.symm.trans hplace)
      exact (h.drafts d hb).perform hallows
  | addFlow draft =>
    unfold Workshop.perform
    dsimp only
    split
    · next d hd =>
      refine ⟨h.constants, h.drafts, fun f hf => ?_⟩
      obtain hf | hf := List.mem_append.mp hf
      · exact h.flows f hf
      · rw [List.mem_singleton.mp hf]
        exact (h.drafts d (List.mem_of_getElem? hd)).fits
    · exact h

/-- **A row of calls** each of which names only what was handed out before it. -/
theorem Sound.after (h : w.Sound) {calls : List DefinitionCall} (hcalls : w.AllowsAll calls) :
    (w.after calls).Sound := by
  induction calls generalizing w with
  | nil => exact h
  | cons call calls ih => exact ih (h.perform hcalls.1) hcalls.2

/-- **A connection that is made stays**, with the flag that its input has in the end. -/
theorem Sound.connects_after (h : w.Sound) {draft source output target : Nat} {slot : UInt16}
    (hcall : w.Allows (.inFlow draft (.connect source output target slot)))
    (later : List DefinitionCall) :
    ∃ d, (w.after (.inFlow draft (.connect source output target slot) :: later)).drafts[draft]?
        = some d
      ∧ d.flow.Connects source output
        ⟨UInt16.ofNat target, slot, d.flow.isSequenceInput slot.toNat⟩ := by
  obtain ⟨d, hd, hsource, _, hslot⟩ := hcall
  have hsound : d.Sound := h.drafts d (List.mem_of_getElem? hd)
  have hmade : (w.perform (.inFlow draft (.connect source output target slot))).drafts[draft]?
      = some (d.perform (.connect source output target slot)) := by
    show (w.drafts.modify draft _)[draft]? = _
    rw [List.getElem?_modify_eq, hd]
    rfl
  have hgrown := grown_after (w.perform (.inFlow draft (.connect source output target slot))) later
  obtain ⟨d', hd', hgrownd⟩ := hgrown.drafts draft _ hmade
  have hflag : d'.flow.isSequenceInput slot.toNat = d.flow.isSequenceInput slot.toNat :=
    hgrownd.isSequenceInput (hsound.slots slot hslot)
  refine ⟨d', hd', ?_⟩
  rw [hflag]
  exact (Flow.connects_connect (hsound.components source hsource)).grown hgrownd

/-- **What is sound under construction** is a sound definition exactly if no flow that is called is
    missing. -/
theorem Sound.validate_eq_ok_iff (h : w.Sound) : w.definition.validate = .ok ()
    ↔ ∀ f ∈ w.definition.flows, ∀ c ∈ f.components, c.CallsFlow w.definition.flows.length := by
  obtain ⟨more, hmore⟩ := h.constants
  have hfirst : w.definition.constants[0]?.any Literal.isUndefined = true := by
    rw [← hmore]
    rfl
  have hsecond : w.definition.constants[1]?.any Literal.isNull = true := by
    rw [← hmore]
    rfl
  rw [Definition.validate_eq_ok_iff]
  constructor
  · intro ⟨_, _, hflaws⟩ f hf c hc
    exact (h.flows f hf c hc).flaw?_eq_none_iff.mp (hflaws f hf c hc)
  · intro hcalls
    exact ⟨hfirst, hsecond, fun f hf c hc =>
      (h.flows f hf c hc).flaw?_eq_none_iff.mpr (hcalls f hf c hc)⟩

end Workshop

/-- **Which definitions that builders make are sound.** Builders are called in any order, for any
    flows at once, and each call names only inputs and components that the same builder handed out
    before; properties come from assemblers. Then the definition is sound exactly if every component
    of it that calls a flow was given one that is there. Every connection in it carries a pulse
    exactly if its input takes one. A connection that is made is there in the end, with the flag of
    its input. And no call, to whatever builder, takes a flow, a component, an output or a
    connection away or puts it elsewhere. -/
theorem builders_make_sound (calls : List DefinitionCall)
    (h : Workshop.AllowsAll {} calls) :
    let w := Workshop.after {} calls
    (w.definition.validate = .ok ()
      ↔ ∀ f ∈ w.definition.flows, ∀ c ∈ f.components, c.CallsFlow w.definition.flows.length)
    ∧ (∀ f ∈ w.definition.flows, ∀ c ∈ f.components, ∀ o ∈ c.outputs, ∀ k ∈ o.connections,
        k.isSequence = f.isSequenceInput k.targetInput.toNat)
    ∧ (∀ before draft source output target slot later,
        calls = before ++ .inFlow draft (.connect source output target slot) :: later →
        ∃ d, w.drafts[draft]? = some d ∧ d.flow.Connects source output
          ⟨UInt16.ofNat target, slot, d.flow.isSequenceInput slot.toNat⟩)
    ∧ (∀ before later, calls = before ++ later → (Workshop.after {} before).Grown w)
    ∧ ∀ (c : Component) (more : List ComponentCall), c.Grown (c.fitted more) := by
  intro w
  have hsound : w.Sound := Workshop.sound_empty.after h
  refine ⟨hsound.validate_eq_ok_iff, fun f hf c hc o ho k hk => ?_, ?_, ?_, Component.grown_fitted⟩
  · exact ((hsound.flows f hf c hc).connections o ho k hk).isSequence
  · rintro before draft source output target slot later rfl
    obtain ⟨hbefore, hcall, _⟩ := Workshop.allowsAll_append.mp h
    have hmade := (Workshop.sound_empty.after hbefore).connects_after hcall later
    rwa [← Workshop.after_append] at hmade
  · rintro before later rfl
    show (Workshop.after {} before).Grown (Workshop.after {} (before ++ later))
    rw [Workshop.after_append]
    exact Workshop.grown_after _ later

/-- Two flows are built at a time, and a component of the first one calls the second one. -/
theorem builders_make_sound_calling :
    let calls : List DefinitionCall :=
      [.newFlow "main", .newFlow "blink", .inFlow 0 (.input Flow.sequenceFlag),
        .inFlow 0 (.component .start []), .inFlow 1 (.component .finish []),
        .inFlow 0 (.component .callAction [.inputs [0], .target 1, .catchOutput 2]),
        .inFlow 0 (.component .log [.property (Assembler.constant {} 1)]), .addFlow 1,
        .inFlow 0 (.connect 0 0 1 0), .addFlow 0]
    let w := Workshop.after {} calls
    Workshop.AllowsAll {} calls ∧ w.definition.validate = .ok ()
    ∧ ∃ d, w.drafts[0]? = some d ∧ d.flow.Connects 0 0 ⟨1, 0, true⟩ := by
  intro calls w
  have hcalls : Workshop.AllowsAll {} calls := by decide
  obtain ⟨hvalid, _, hmade, _⟩ := builders_make_sound calls hcalls
  obtain ⟨d, hd, hconnects⟩ := hmade (calls.take 8) 0 0 0 1 0 [.addFlow 0] rfl
  obtain rfl : _ = d := Option.some.inj hd
  exact ⟨hcalls, hvalid.mpr (by decide), _, hd, hconnects⟩

/-! ## 6. What no builder sees to -/

/-- The number of a flow that a call names for its component to call. -/
def ComponentCall.target? : ComponentCall → Option UInt16
  | target index => some index
  | payload bytes => Component.target? { kind := .callAction, payload := bytes }
  | _ => none

/-- The flows that a call names for a component to call. -/
def DefinitionCall.targets : DefinitionCall → List UInt16
  | inFlow _ (.component .callAction calls) => calls.filterMap ComponentCall.target?
  | _ => []

/-- **Not every definition is sound** whose builders were told nothing wrong: a component is given a
    flow that is there, and then a payload that takes its place and names none. -/
theorem not_every_built_sound :
    let calls : List DefinitionCall :=
      [.newFlow "main", .inFlow 0 (.component .callAction [.target 0, .payload []]), .addFlow 0]
    let d := (Workshop.after {} calls).definition
    Workshop.AllowsAll {} calls
    ∧ (∀ target ∈ calls.flatMap DefinitionCall.targets, target.toNat < d.flows.length)
    ∧ d.validate = .error (.invalid (.component 0 0 .missingFlow)) := by
  intro calls d
  refine ⟨by decide, fun target htarget => ?_, rfl⟩
  have htargets : calls.flatMap DefinitionCall.targets = [0] := rfl
  rw [htargets] at htarget
  obtain rfl := List.mem_singleton.mp htarget
  decide

end InstrumentFlow
