import InstrumentFlow.Proofs.Engine.Destruction

/-!
# Courses

Whatever a running program does is a course of strides: changes, and destructions as a whole.

* `arisen` -- the state after a beginning and the pings of the components;
* `Stride`, `Course` -- one stride; strides in a row;
* `Course.changes`, `Course.inv` -- a course is a row of changes and keeps the invariant.
-/

namespace InstrumentFlow.Engine

/-! ## 1. Strides -/

/-- The state after the beginning of an instance and the pings of its components. -/
def arisen (e : Engine) (flow : Nat) (f : Flow) (parent : Option (InstanceId × Nat))
    (isAction : Bool) : Engine :=
  (e.begun flow f parent isAction).pingAll
    (e.forest.insert (freshInstance flow f parent isAction e.heap).1).1
    (List.range f.components.length)

/-- **One stride**: a change, where instances only go with a destruction as a whole, and where who
    is called is waited for. -/
inductive Stride (closed : Prop) (e : Engine) : Engine → Prop
  | touch {e' : Engine} (h : Touch closed e e') : Stride closed e e'
  /-- The host lets a component wait. -/
  | await (i : InstanceId) (component : Nat) : Stride closed e (e.startAsync none i component)
  | release (child : Option InstanceId) (i : InstanceId) (component : Nat) :
      Stride closed e (e.clearAsync child i component)
  /-- An instance begins that nobody called. -/
  | begin {flow : Nat} {f : Flow} (hf : e.definition.flows[flow]? = some f) :
      Stride closed e (e.arisen flow f none false)
  /-- A component calls a flow and waits for it. -/
  | call {flow : Nat} {f : Flow} {i : InstanceId} {component : Nat}
      (hf : e.definition.flows[flow]? = some f) (hl : e.forest.contains i = true) :
      Stride closed e ((e.arisen flow f (some (i, component)) true).startAsync
        (some (e.nextId flow f (some (i, component)) true)) i component)
  | destroy {e' : Engine} {i : InstanceId} (h : Destroys (.one i) e e') : Stride closed e e'

/-- Strides in a row. -/
abbrev Course (closed : Prop) : Engine → Engine → Prop := Relation.ReflTransGen (Stride closed)

theorem strokes_arisen {closed : Prop} {own : Leeway} {e : Engine} (flow : Nat)
    (f : Flow) (parent : Option (InstanceId × Nat)) (isAction : Bool) :
    Strokes closed own (e.begun flow f parent isAction) (e.arisen flow f parent isAction) :=
  strokes_pingAll .refl rfl _ _

section

variable {closed : Prop} {e : Engine} (hi : Inv closed e) {flow : Nat} {f : Flow}
  (hf : e.definition.flows[flow]? = some f) {parent : Option (InstanceId × Nat)} {isAction : Bool}
  (hp : ∀ p, parent = some p → e.forest.contains p.1 = true) (ha : isAction = parent.isSome)
include hi hf hp ha

theorem touches_arisen :
    Touches closed (e.begun flow f parent isAction) (e.arisen flow f parent isAction) := by
  have hbegin : Change closed e (e.begun flow f parent isAction) := .begin hf hp ha
  have hpings : Strokes closed nobody _ (e.arisen flow f parent isAction) :=
    strokes_arisen flow f parent isAction
  exact hpings.touches (hbegin.inv hi)

theorem changes_arisen : Changes closed e (e.arisen flow f parent isAction) :=
  (Relation.ReflTransGen.single (.begin hf hp ha)).trans (touches_arisen hi hf hp ha).changes

/-- The new instance is there, below its caller. -/
theorem parent_arisen : ∃ s,
    (e.arisen flow f parent isAction).instance? (e.nextId flow f parent isAction) = some s
      ∧ s.parent = parent := by
  have hnew := Forest.get?_insert_self hi.sound.free
    (rooted_freshInstance flow f hp ha e.heap)
  obtain ⟨s, hs, he⟩ := (touches_arisen hi hf hp ha).calm.forth hnew
  exact ⟨s, hs, Instance.parent_of_frame he⟩

end

theorem Stride.changes {closed : Prop} {e e' : Engine} (h : Stride closed e e')
    (hi : Inv closed e) : Changes closed e e' := by
  cases h with
  | touch h => exact .single (.touch h)
  | await i component => exact .single (.await fun k hk => (nomatch hk))
  | release child i component => exact .single (.release child i component)
  | begin hf => exact changes_arisen hi hf (fun _ h => (nomatch h)) rfl
  | @call flow f i component hf hl =>
    have hlive : ∀ p, some (i, component) = some p → e.forest.contains p.1 = true := by
      rintro p ⟨⟩
      exact hl
    refine (changes_arisen hi hf hlive rfl).tail (.await ?_)
    rintro k ⟨⟩
    exact parent_arisen hi hf hlive rfl
  | destroy h => exact h.changes hi

/-- **A course is a row of changes.** -/
theorem Course.changes {closed : Prop} {e e' : Engine} (hc : Course closed e e')
    (hi : Inv closed e) : Changes closed e e' := by
  induction hc with
  | refl => exact .refl
  | tail _ h ih => exact ih.trans (h.changes (ih.inv hi))

theorem Course.inv {closed : Prop} {e e' : Engine} (hc : Course closed e e')
    (hi : Inv closed e) : Inv closed e' := (hc.changes hi).inv hi

theorem Touches.course {closed : Prop} {e e' : Engine} (h : Touches closed e e') :
    Course closed e e' := Relation.ReflTransGen.mono (fun _ _ => Stride.touch) _ _ h

end InstrumentFlow.Engine
