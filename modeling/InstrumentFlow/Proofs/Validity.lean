import InstrumentFlow.Asset.Validate
import InstrumentFlow.Proofs.Bytecode.Scan
import Mathlib.Tactic.SplitIfs

/-!
# What makes a definition sound

The checks of a definition report the first flaw that they meet. Without a flaw it has everything
that they look for.

* `Component.flaw?_eq_none_iff` -- a component without a flaw passes five checks;
* `Component.inputFlaw?_eq_none_iff` and the next ones -- what each of them looks for;
* `Definition.validate_eq_ok_iff` -- **a sound definition has the reserved constants, and components
  without a flaw**.
-/

namespace InstrumentFlow

open Bytecode

/-- A search that goes by positions finds nothing where no item has what is looked for. -/
theorem findSome?_zipIdx_eq_none_iff {α β : Type _} {l : List α} {g : α × Nat → Option β}
    {P : α → Prop} (hg : ∀ a index, g (a, index) = none ↔ P a) :
    l.zipIdx.findSome? g = none ↔ ∀ a ∈ l, P a := by
  rw [List.findSome?_eq_none_iff]
  constructor
  · intro h a ha
    obtain ⟨index, hindex⟩ := List.mem_iff_getElem?.mp ha
    exact (hg a index).mp (h (a, index) (List.mem_zipIdx_iff_getElem?.mpr hindex))
  · intro h ⟨a, index⟩ ha
    exact (hg a index).mpr (h a (List.mem_of_getElem? (List.mem_zipIdx_iff_getElem?.mp ha)))

variable {f : Flow}

/-! ## 1. Components -/

theorem Connection.flaw?_eq_none_iff {k : Connection} : k.flaw? f = none
    ↔ k.targetComponent.toNat < f.components.length ∧ k.targetInput.toNat < f.inputCount := by
  unfold Connection.flaw?
  split_ifs with hcomponent hinput <;> simp <;> omega

/-- A property is empty, or it has an end. -/
theorem Property.flaw?_eq_none_iff {p : Property} {index : Nat} :
    p.flaw? index = none ↔ p.instructions = [] ∨ .stop ∈ scan p.instructions := by
  unfold Property.flaw?
  rw [decode_eq]
  by_cases hempty : p.instructions = []
  · simp [hempty]
  · by_cases hstop : .stop ∈ scan p.instructions <;> simp [hempty, hstop]

namespace Component

variable {c : Component} {flowCount : Nat}

/-- **A component without a flaw** passes every check. -/
theorem flaw?_eq_none_iff : c.flaw? flowCount f = none
    ↔ c.inputFlaw? f = none ∧ c.catchFlaw? = none ∧ c.propertyFlaw? = none
      ∧ c.connectionFlaw? f = none ∧ c.callFlaw? flowCount = none := by
  simp only [flaw?, Option.orElse_eq_orElse, Option.orElse_eq_or, Option.or_eq_none_iff]

theorem inputFlaw?_eq_none_iff :
    c.inputFlaw? f = none ↔ ∀ slot ∈ c.inputs, slot.toNat < f.inputCount := by
  simp [inputFlaw?]

theorem catchFlaw?_eq_none_iff :
    c.catchFlaw? = none ↔ ∀ output ∈ c.catchOutput, output.toNat < c.outputs.length := by
  unfold catchFlaw?
  cases c.catchOutput with
  | none => simp
  | some output => simp

theorem propertyFlaw?_eq_none_iff : c.propertyFlaw? = none
    ↔ ∀ p ∈ c.properties, p.instructions = [] ∨ .stop ∈ scan p.instructions :=
  findSome?_zipIdx_eq_none_iff fun _ _ => Property.flaw?_eq_none_iff

theorem connectionFlaw?_eq_none_iff : c.connectionFlaw? f = none
    ↔ ∀ o ∈ c.outputs, ∀ k ∈ o.connections,
      k.targetComponent.toNat < f.components.length ∧ k.targetInput.toNat < f.inputCount := by
  unfold connectionFlaw?
  rw [List.findSome?_eq_none_iff]
  simp only [List.mem_flatMap, Connection.flaw?_eq_none_iff]
  exact ⟨fun h o ho k hk => h k ⟨o, ho, hk⟩, fun h k ⟨o, ho, hk⟩ => h o ho k hk⟩

/-- **The flow that a component calls** is there. -/
def CallsFlow (flowCount : Nat) (c : Component) : Prop :=
  c.kind = .callAction → ∃ target ∈ c.target?, target.toNat < flowCount

theorem callFlaw?_eq_none_iff : c.callFlaw? flowCount = none ↔ c.CallsFlow flowCount := by
  unfold callFlaw? CallsFlow
  split_ifs with hkind
  · cases c.target? with
    | none => simp [hkind]
    | some target => simp [hkind]
  · simp [hkind]

instance : Decidable (c.CallsFlow flowCount) :=
  decidable_of_iff (c.callFlaw? flowCount = none) callFlaw?_eq_none_iff

end Component

/-! ## 2. Definitions -/

namespace Definition

variable {d : Definition}

theorem validate_eq_ok_iff_invalid? : d.validate = .ok () ↔ d.invalid? = none := by
  unfold validate
  cases d.invalid? <;> simp

theorem flowInvalid?_eq_none_iff {flowCount index : Nat} : flowInvalid? flowCount index f = none
    ↔ ∀ c ∈ f.components, c.flaw? flowCount f = none :=
  findSome?_zipIdx_eq_none_iff fun _ _ => Option.map_eq_none_iff

/-- **A sound definition** has the reserved constants in front, and no component of it has a
    flaw. -/
theorem validate_eq_ok_iff : d.validate = .ok ()
    ↔ d.constants[0]?.any Literal.isUndefined = true ∧ d.constants[1]?.any Literal.isNull = true
      ∧ ∀ f ∈ d.flows, ∀ c ∈ f.components, c.flaw? d.flows.length f = none := by
  rw [validate_eq_ok_iff_invalid?]
  unfold invalid?
  split_ifs with hfirst hsecond
  · simp_all
  · simp_all
  · refine (findSome?_zipIdx_eq_none_iff fun _ _ => flowInvalid?_eq_none_iff).trans ?_
    simp_all

end Definition

end InstrumentFlow
