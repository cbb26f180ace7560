import InstrumentFlow.Asset.Builder
import InstrumentFlow.Bytecode.Assembler

/-!
# Definitions under construction

A definition, its flows and their components are each put together by a builder, and the calls to
builders may come in any order. Whatever is called, nothing that was built before is taken away or
moved: flows that were added stay as they are, and what a flow has so far only grows at its ends.

* `ComponentCall`, `FlowCall`, `DefinitionCall` -- what the builders are called for;
* `Draft`, `Workshop` -- a flow and a definition under construction, with the numbers that were
  handed out;
* `Placewise` -- every item of a list stays at its place and becomes one that is related to it;
* `Output.Grown`, `Component.Grown`, `Flow.Grown`, `Workshop.Grown` -- what has grown since;
* `Component.grown_fitted` -- the calls to the builder of a component;
* `Draft.grown_perform` -- one call to the builder of a flow;
* `Workshop.grown_perform`, `grown_after` -- **one call, and a row of calls, to any builders**.
-/

namespace InstrumentFlow

open Bytecode

/-! ## 1. Builders -/

/-- What the builder of a component is called for. -/
inductive ComponentCall where
  | inputs (slots : List UInt16)
  /-- One more property, written by an assembler. -/
  | property (a : Assembler)
  | outputs (count : Nat)
  | catchOutput (output : UInt16)
  | payload (bytes : List UInt8)
  | target (index : UInt16)
  | breakpoint

/-- What the builder of a flow is called for. -/
inductive FlowCall where
  /-- One more input; one for pulses, for data or an optional one has the flags of that. -/
  | input (flags : UInt8)
  | «local» (l : Literal)
  /-- One more component, after the calls to its own builder. -/
  | component (kind : Kind) (calls : List ComponentCall)
  | connect (source output target : Nat) (slot : UInt16)

/-- What the builders of a definition and of its flows are called for. The builders of flows are
    numbered in the order in which they were begun. -/
inductive DefinitionCall where
  | constant (l : Literal)
  | global (l : Literal)
  /-- One more builder of a flow. -/
  | newFlow (name : String)
  /-- A call to a builder of a flow. -/
  | inFlow (draft : Nat) (call : FlowCall)
  /-- The flow of a builder is added to the definition as it is now. -/
  | addFlow (draft : Nat)

namespace Component

def perform (c : Component) : ComponentCall → Component
  | .inputs slots => c.withInputs slots
  | .property a => c.withProperty a.finish
  | .outputs count => c.withOutputs count
  | .catchOutput output => c.withCatchOutput output
  | .payload bytes => c.withPayload bytes
  | .target index => c.withTarget index
  | .breakpoint => c.withBreakpoint

/-- The component after a row of calls to its builder. -/
def fitted (c : Component) (calls : List ComponentCall) : Component := calls.foldl perform c

end Component

/-- A flow in the hands of its builder, with the numbers of inputs and of components that it has
    handed out. -/
structure Draft where
  flow : Flow
  slots : List UInt16 := []
  components : List Nat := []

def Draft.perform (d : Draft) : FlowCall → Draft
  | .input flags =>
    let (slot, flow) := d.flow.addInput flags
    { d with flow, slots := d.slots ++ [slot] }
  | .local l => { d with flow := (d.flow.addLocal l).2 }
  | .component kind calls =>
    let (number, flow) := d.flow.addComponent ((Component.ofKind kind).fitted calls)
    { d with flow, components := d.components ++ [number] }
  | .connect source output target slot =>
    { d with flow := d.flow.connect source output target slot }

/-- A definition and flows in the hands of their builders. -/
structure Workshop where
  definition : Definition := {}
  drafts : List Draft := []

namespace Workshop

def perform (w : Workshop) : DefinitionCall → Workshop
  | .constant l => { w with definition := (w.definition.addConstant l).2 }
  | .global l => { w with definition := (w.definition.addGlobal l).2 }
  | .newFlow name => { w with drafts := w.drafts ++ [{ flow := .named name }] }
  | .inFlow draft call => { w with drafts := w.drafts.modify draft (·.perform call) }
  | .addFlow draft =>
    match w.drafts[draft]? with
    | some d => { w with definition := (w.definition.addFlow d.flow).2 }
    | none => w

/-- What is under construction after a row of calls. -/
def after (w : Workshop) (calls : List DefinitionCall) : Workshop := calls.foldl perform w

theorem after_append (w : Workshop) (before later : List DefinitionCall) :
    w.after (before ++ later) = (w.after before).after later := List.foldl_append

end Workshop

/-! ## 2. Items that stay at their places -/

section

variable {α : Type _} {R : α → α → Prop} {l l' l'' : List α}

/-- **Every item stays at its place**, as itself or as one that is related to it. -/
def Placewise (R : α → α → Prop) (l l' : List α) : Prop :=
  ∀ (i : Nat) (a : α), l[i]? = some a → ∃ a', l'[i]? = some a' ∧ R a a'

/-- More items stand behind those that are there. -/
theorem Placewise.append (hrefl : ∀ a, R a a) (l more : List α) : Placewise R l (l ++ more) := by
  intro i a ha
  obtain ⟨hi, _⟩ := List.getElem?_eq_some_iff.mp ha
  exact ⟨a, by rw [List.getElem?_append_left hi, ha], hrefl a⟩

theorem Placewise.refl (hrefl : ∀ a, R a a) (l : List α) : Placewise R l l := by
  intro i a ha
  exact ⟨a, ha, hrefl a⟩

theorem Placewise.trans (htrans : ∀ {a b c}, R a b → R b c → R a c) (h : Placewise R l l')
    (h' : Placewise R l' l'') : Placewise R l l'' := by
  intro i a ha
  obtain ⟨b, hb, hab⟩ := h i a ha
  obtain ⟨c, hc, hbc⟩ := h' i b hb
  exact ⟨c, hc, htrans hab hbc⟩

theorem Placewise.length_le (h : Placewise R l l') : l.length ≤ l'.length := by
  refine Nat.le_of_not_lt fun hlt => ?_
  -- the item at the place behind the last one of the second list is nowhere
  obtain ⟨a, ha⟩ : ∃ a, l[l'.length]? = some a := ⟨_, List.getElem?_eq_getElem hlt⟩
  obtain ⟨a', ha', _⟩ := h _ a ha
  simp at ha'

/-- One item becomes another one, and the others stay as they are. -/
theorem Placewise.modify (hrefl : ∀ a, R a a) (l : List α) (place : Nat) {f : α → α}
    (hf : ∀ a, R a (f a)) : Placewise R l (l.modify place f) := by
  intro i a ha
  rw [List.getElem?_modify, ha]
  by_cases hi : place = i
  · exact ⟨f a, by simp [hi], hf a⟩
  · exact ⟨a, by simp [hi], hrefl a⟩

/-- What is in a list after one item became another one. -/
theorem mem_modify {place : Nat} {f : α → α} {a : α} (h : a ∈ l.modify place f) :
    a ∈ l ∨ ∃ b ∈ l, l[place]? = some b ∧ a = f b := by
  obtain ⟨i, hi⟩ := List.mem_iff_getElem?.mp h
  rw [List.getElem?_modify] at hi
  obtain ⟨b, hb, heq⟩ := Option.map_eq_some_iff.mp hi
  by_cases hplace : place = i
  · rw [if_pos hplace] at heq
    exact .inr ⟨b, List.mem_of_getElem? hb, hplace ▸ hb, heq.symm⟩
  · rw [if_neg hplace] at heq
    exact .inl (heq ▸ List.mem_of_getElem? hb)

end

/-! ## 3. Components -/

/-- **An output has grown**: connections were added behind those it had. -/
structure Output.Grown (o o' : Output) : Prop where
  isSequence : o'.isSequence = o.isSequence
  connections : o.connections <+: o'.connections

theorem Output.Grown.refl (o : Output) : o.Grown o := ⟨rfl, List.prefix_refl _⟩

theorem Output.Grown.trans {a b c : Output} (h : a.Grown b) (h' : b.Grown c) : a.Grown c :=
  ⟨h'.isSequence.trans h.isSequence, h.connections.trans h'.connections⟩

namespace Component

variable {a b c : Component}

/-- **A component has grown**: every output is where it was and has grown. -/
def Grown (c c' : Component) : Prop := Placewise Output.Grown c.outputs c'.outputs

theorem Grown.refl (c : Component) : c.Grown c := Placewise.refl Output.Grown.refl _

theorem Grown.trans (h : a.Grown b) (h' : b.Grown c) : a.Grown c :=
  Placewise.trans Output.Grown.trans h h'

/-- Outputs that are made stand behind those that are there. -/
theorem grown_withOutputs (c : Component) (count : Nat) : c.Grown (c.withOutputs count) :=
  Placewise.append Output.Grown.refl _ _

/-- A connection that is added stands behind those that are there. -/
theorem grown_addConnection (c : Component) (output : Nat) (k : Connection) :
    c.Grown (c.addConnection output k) :=
  (c.grown_withOutputs (output + 1)).trans
    (Placewise.modify Output.Grown.refl _ output fun _ => ⟨rfl, List.prefix_append _ _⟩)

theorem grown_perform (c : Component) (call : ComponentCall) : c.Grown (c.perform call) := by
  cases call with
  | outputs count => exact c.grown_withOutputs count
  | catchOutput output => exact c.grown_withOutputs (output.toNat + 1)
  | _ => exact .refl c

/-- **What the builder of a component is called for** leaves the outputs in place. -/
theorem grown_fitted (c : Component) (calls : List ComponentCall) : c.Grown (c.fitted calls) := by
  induction calls generalizing c with
  | nil => exact .refl c
  | cons call calls ih => exact (c.grown_perform call).trans (ih (c.perform call))

end Component

/-! ## 4. Flows -/

/-- **A flow has grown**: inputs were added behind those it had, and every component is where it was
    and has grown. -/
structure Flow.Grown (f f' : Flow) : Prop where
  inputFlags : f.inputFlags <+: f'.inputFlags
  components : Placewise Component.Grown f.components f'.components

theorem Flow.Grown.refl (f : Flow) : f.Grown f :=
  ⟨List.prefix_refl _, .refl Component.Grown.refl _⟩

theorem Flow.Grown.trans {a b c : Flow} (h : a.Grown b) (h' : b.Grown c) : a.Grown c :=
  ⟨h.inputFlags.trans h'.inputFlags, h.components.trans Component.Grown.trans h'.components⟩

/-- **What the builder of a flow is called for** takes nothing away from the flow. -/
theorem Draft.grown_perform (d : Draft) (call : FlowCall) : d.flow.Grown (d.perform call).flow := by
  cases call with
  | input flags => exact ⟨List.prefix_append _ _, .refl Component.Grown.refl _⟩
  | «local» l => exact ⟨List.prefix_refl _, .refl Component.Grown.refl _⟩
  | component kind calls =>
    exact ⟨List.prefix_refl _, .append Component.Grown.refl _ _⟩
  | connect source output target slot =>
    exact ⟨List.prefix_refl _, .modify Component.Grown.refl _ source fun c =>
      c.grown_addConnection output _⟩

namespace Flow

variable {f f' : Flow} {source output : Nat} {k : Connection}

/-- **A connection of a flow**, at an output of one of its components. -/
def Connects (f : Flow) (source output : Nat) (k : Connection) : Prop :=
  ∃ c o, f.components[source]? = some c ∧ c.outputs[output]? = some o ∧ k ∈ o.connections

/-- A flow that has grown has the connections that it had. -/
theorem Connects.grown (h : f.Connects source output k) (hgrown : f.Grown f') :
    f'.Connects source output k := by
  obtain ⟨c, o, hc, ho, hk⟩ := h
  obtain ⟨c', hc', hgrownc⟩ := hgrown.components source c hc
  obtain ⟨o', ho', hgrowno⟩ := hgrownc output o ho
  exact ⟨c', o', hc', ho', hgrowno.connections.subset hk⟩

/-- **A connection that is made is there.** -/
theorem connects_connect {target : Nat} {slot : UInt16} (hsource : source < f.components.length) :
    (f.connect source output target slot).Connects source output
      ⟨UInt16.ofNat target, slot, f.isSequenceInput slot.toNat⟩ := by
  obtain ⟨c, hc⟩ : ∃ c, f.components[source]? = some c :=
    ⟨_, List.getElem?_eq_getElem hsource⟩
  have houtput : output < (c.withOutputs (output + 1)).outputs.length := by
    simp only [Component.withOutputs, List.length_append, List.length_replicate]
    omega
  obtain ⟨o, ho⟩ : ∃ o, (c.withOutputs (output + 1)).outputs[output]? = some o :=
    ⟨_, List.getElem?_eq_getElem houtput⟩
  let k : Connection := ⟨UInt16.ofNat target, slot, f.isSequenceInput slot.toNat⟩
  refine ⟨c.addConnection output k, { o with connections := o.connections ++ [k] }, ?_, ?_, ?_⟩
  · show (f.components.modify source (·.addConnection output k))[source]? = _
    rw [List.getElem?_modify_eq, hc]
    rfl
  · show ((c.withOutputs (output + 1)).outputs.modify output _)[output]? = _
    rw [List.getElem?_modify_eq, ho]
    rfl
  · simp [k]

/-- What is an input with a flag stays one. -/
theorem Grown.isSequenceInput (h : f.Grown f') {slot : Nat} (hslot : slot < f.inputCount) :
    f'.isSequenceInput slot = f.isSequenceInput slot := by
  obtain ⟨more, hmore⟩ := h.inputFlags
  unfold Flow.isSequenceInput hasFlag
  rw [← hmore, List.getElem?_append_left hslot]

end Flow

/-! ## 5. Definitions -/

namespace Workshop

/-- **What is under construction has grown**: flows were added to the definition behind those it
    had, and every flow in the hands of a builder is where it was and has grown. -/
structure Grown (w w' : Workshop) : Prop where
  flows : w.definition.flows <+: w'.definition.flows
  drafts : Placewise (fun d d' => d.flow.Grown d'.flow) w.drafts w'.drafts

variable {w : Workshop}

theorem Grown.refl (w : Workshop) : w.Grown w :=
  ⟨List.prefix_refl _, .refl (fun d => .refl d.flow) _⟩

theorem Grown.trans {a b c : Workshop} (h : a.Grown b) (h' : b.Grown c) : a.Grown c :=
  ⟨h.flows.trans h'.flows, h.drafts.trans Flow.Grown.trans h'.drafts⟩

/-- **One call takes nothing away.** -/
theorem grown_perform (w : Workshop) (call : DefinitionCall) : w.Grown (w.perform call) := by
  have hdrafts : Placewise (fun d d' : Draft => d.flow.Grown d'.flow) w.drafts w.drafts :=
    .refl (fun d => .refl d.flow) _
  cases call with
  | constant l => exact ⟨List.prefix_refl _, hdrafts⟩
  | global l => exact ⟨List.prefix_refl _, hdrafts⟩
  | newFlow name =>
    exact ⟨List.prefix_refl _, .append (fun d => .refl d.flow) _ _⟩
  | inFlow draft call =>
    exact ⟨List.prefix_refl _, .modify (fun d => .refl d.flow) _ draft fun d =>
      d.grown_perform call⟩
  | addFlow draft =>
    unfold perform
    dsimp only
    split
    · exact ⟨List.prefix_append _ _, hdrafts⟩
    · exact .refl w

/-- **No row of calls takes anything away.** -/
theorem grown_after (w : Workshop) (calls : List DefinitionCall) : w.Grown (w.after calls) := by
  induction calls generalizing w with
  | nil => exact .refl w
  | cons call calls ih => exact (w.grown_perform call).trans (ih (w.perform call))

end Workshop

end InstrumentFlow
