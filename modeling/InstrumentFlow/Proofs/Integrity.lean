import InstrumentFlow.Proofs.Engine.Run

/-!
# Integrity of the instances

* `Forest.Sound.count_roots`, `count_children` -- every live instance stands once in one list;
* `Fits.asyncCount_pos` -- while a component waits, the count of the marks can be lowered;
* `integrity_after` -- in every state of every run the links belong together and every instance has
  the places that its flow asks for.
-/

namespace InstrumentFlow

/-! ## 1. Lists of instances -/

namespace Forest.Sound

variable {f : Forest} (hf : f.Sound) {i : InstanceId} {s : Instance} (hi : f.get? i = some s)
include hf hi

/-- A live instance stands among the roots once if nobody called it, and else never. -/
theorem count_roots : f.roots.count i = if s.parent = none then 1 else 0 := by
  split
  · next hp => exact List.count_eq_one_of_mem hf.roots_nodup ((hf.mem_roots i).mpr ⟨s, hi, hp⟩)
  · next hp =>
    refine List.count_eq_zero_of_not_mem fun hmem => hp ?_
    obtain ⟨t, ht, hroot⟩ := (hf.mem_roots i).mp hmem
    rw [hi] at ht
    exact Option.some.inj ht ▸ hroot

/-- A live instance stands among the children of its caller once, and never among those of
    another. -/
theorem count_children {p : InstanceId} {t : Instance} (hp : f.get? p = some t) :
    t.children.count i = if s.caller? = some p then 1 else 0 := by
  have hmem := hf.mem_children p t hp i
  split
  · next hcall =>
    exact List.count_eq_one_of_mem (hf.children_nodup p t hp) (hmem.mpr ⟨s, hi, hcall⟩)
  · next hcall =>
    refine List.count_eq_zero_of_not_mem fun h => hcall ?_
    obtain ⟨u, hu, he⟩ := hmem.mp h
    rw [hi] at hu
    exact Option.some.inj hu ▸ he

end Forest.Sound

/-- While a component waits, the count of the marks is not zero. -/
theorem Fits.asyncCount_pos {d : Definition} {s : Instance} (h : Fits d s) {component : Nat}
    (hc : s.isAsync component = true) : 0 < s.asyncCount := by
  rw [h.asyncCount_eq, Array.count_pos_iff]
  unfold Instance.isAsync at hc
  cases hget : s.async[component]? with
  | none =>
    rw [hget] at hc
    cases hc
  | some b =>
    rw [hget] at hc
    have hb : b = true := hc
    exact hb ▸ Array.mem_of_getElem? hget

namespace Engine

/-! ## 2. Every run -/

/-- **In every state of every run** the links of the instances belong together, each live instance
    stands once in exactly one list, and each has the slots, the places for progress and the counted
    marks that its flow asks for. -/
theorem integrity_after {d : Definition} {config : Config} {dispatcher : Dispatcher} {host : Host}
    {e₀ : Engine} (hb : build d config dispatcher host = .ok e₀) (moves : List Move) :
    (e₀.after moves).forest.Sound
    ∧ (∀ i s, (e₀.after moves).instance? i = some s →
        (e₀.after moves).forest.roots.count i = (if s.parent = none then 1 else 0)
        ∧ ∀ p t, (e₀.after moves).instance? p = some t →
            t.children.count i = if s.caller? = some p then 1 else 0)
    ∧ ∀ i s, (e₀.after moves).instance? i = some s →
        Fits d s ∧ ∀ component, s.isAsync component = true → 0 < s.asyncCount := by
  have h₀ : Inv False e₀ := inv_build hb False.elim
  have hi := inv_after h₀ moves False.elim
  have hd : (e₀.after moves).definition = d :=
    ((course_after h₀ moves False.elim).changes h₀).definition.trans
      (congrArg Engine.definition (build_eq_ok_iff.mp hb).2)
  refine ⟨hi.sound, fun i s hs => ⟨hi.sound.count_roots hs, fun p t ht => ?_⟩, fun i s hs => ?_⟩
  · exact hi.sound.count_children hs ht
  · have hfits := hi.fits i s hs
    rw [hd] at hfits
    exact ⟨hfits, fun _ => hfits.asyncCount_pos⟩

/-- A flow that calls a second one, which only begins. -/
def callingDefinition : Definition :=
  { flows :=
      [{ name := "main", components := [{ kind := .callAction, payload := [1, 0] }] },
       { name := "called", components := [{ kind := .start }] }] }

/-- After one tick the called flow of a small program is live below its caller. -/
theorem integrity_after_call :
    build callingDefinition {} .absent {} = .ok (built callingDefinition {} .absent {})
    ∧ ((built callingDefinition {} .absent {}).after
        [.order ⟨.startFlow 0, none⟩, .tick none]).forest.live = 2
    ∧ ((built callingDefinition {} .absent {}).after
        [.order ⟨.startFlow 0, none⟩, .tick none]).forest.Sound :=
  ⟨rfl, by decide +kernel, (integrity_after (d := callingDefinition) rfl _).1⟩

end Engine

end InstrumentFlow
