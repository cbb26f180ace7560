import InstrumentFlow.Expression.Evaluate
import InstrumentFlow.Proofs.Activity
import InstrumentFlow.Proofs.Storage.Fair

/-!
# Operands of expressions

What stands on the stack in the middle of an expression. Write targets stand there too, and where
nothing that is stored names a place each of them leads somewhere: it was computed a moment ago, and
nothing goes while an expression runs.

* `Points` -- a write target leads to something that is there;
* `Footing` -- what can be read when an expression begins;
* `Operand` -- a value that may stand on the stack;
* `Heap.Endless`, `Fails` -- what is known where an expression fails;
* `Evaluates` -- an evaluation adds storages, leaves such operands and fails like that;
* `resolve_fair`, `resolve_points` -- what an operand holds, and that it holds something;
* `evaluates_step`, `evaluates_run` -- one instruction, and a stream;
* `evaluates_value`, `evaluates_target` -- the two results;
* `Passes`, `amid_of_passes` -- the moments of a stream, and the operands at each of them.
-/

namespace InstrumentFlow

/-- Two values have no end to their comparison, or one has no text. -/
def Heap.Endless (h : Heap) : Prop := ∃ v w, h.text? v = none ∨ h.same? v w = none

namespace Expression

open Bytecode

/-! ## 1. Write targets -/

/-- **The write target leads to something that is there**: as a slot to a local variable of the
    instance. -/
def Points (scope : Scope) (i : InstanceId) (h : Heap) : Value → Prop
  | .slot j n => j = i ∧ ∃ slots, scope.slots? i = some slots ∧ slots.inputCount ≤ n
      ∧ n < slots.values.size
  | .global n => n < scope.globals.size
  | .element a n => n < (h.elements a).size
  | _ => True

theorem points_of_plain {scope : Scope} {i : InstanceId} {h : Heap} {v : Value} (hv : v.Plain) :
    Points scope i h v := by
  cases v with
  | slot _ _ | global _ | element _ _ => cases hv
  | _ => trivial

/-- Where all write targets are barred every value leads somewhere if those do. -/
theorem points_of_noPlaces {T : Terms} (hn : T.noPlaces) {scope : Scope} {i : InstanceId}
    {h : Heap} {v : Value} (hv : T.barred v → Points scope i h v) : Points scope i h v := by
  by_cases hplain : v.Plain
  · exact points_of_plain hplain
  · exact hv (hn v hplain)

theorem Points.mono {scope : Scope} {i : InstanceId} {h h' : Heap} {v : Value}
    (hv : Points scope i h v) (hle : ∀ a, (h.elements a).size ≤ (h'.elements a).size) :
    Points scope i h' v := by
  cases v with
  | element a n => exact Nat.lt_of_lt_of_le hv (hle a)
  | _ => exact hv

/-! ## 2. What can be read -/

/-- Whatever can be read may be stored. -/
structure Scope.Fair (T : Terms) (h : Heap) (scope : Scope) : Prop where
  slots : ∀ i slots, scope.slots? i = some slots → ∀ v ∈ slots.values, InstrumentFlow.Fair T h v
  globals : ∀ v ∈ scope.globals, InstrumentFlow.Fair T h v
  native : ∀ id, InstrumentFlow.Fair T h (scope.native id)

theorem Scope.Fair.mono {T : Terms} {h h' : Heap} {scope : Scope} (hs : scope.Fair T h)
    (hle : h.cells.size ≤ h'.cells.size) : scope.Fair T h' where
  slots i slots hi v hv := (hs.slots i slots hi v hv).mono hle
  globals v hv := (hs.globals v hv).mono hle
  native id := (hs.native id).mono hle

/-- **What can be read when an expression begins** may be stored. -/
structure Footing (T : Terms) (c : Context) (h₀ : Heap) : Prop where
  scope : c.scope.Fair T h₀
  heap : h₀.AllFair T

/-- **The value may stand on the stack.** -/
structure Operand (T : Terms) (c : Context) (h : Heap) (v : Value) : Prop where
  known : T.noArrays → v.Known h
  points : T.barred v → Points c.scope c.self h v

theorem Operand.grown {T : Terms} {c : Context} {h h' : Heap} {v : Value}
    (hv : Operand T c h v) (hg : h.Grown T h') : Operand T c h' v :=
  ⟨fun hn => (hv.known hn).mono hg.size_le, fun hb => (hv.points hb).mono hg.size_elements_le⟩

theorem operand_of_fair {T : Terms} {c : Context} {h : Heap} {v : Value} (hv : Fair T h v) :
    Operand T c h v := ⟨hv.known, fun hb => absurd hb hv.allowed⟩

/-- **The moments of a stream**: what an evaluation passes through before each instruction. -/
inductive Passes (c : Context) : List UInt8 → Workspace → Workspace → Prop
  | here {bytes : List UInt8} {w : Workspace} : Passes c bytes w w
  | onward {low high : UInt8} {rest : List UInt8} {w w₁ w₂ : Workspace}
      (hn : Instruction.ofWord (Instruction.wordOfBytes low high) ≠ .stop)
      (hs : step c (Instruction.ofWord (Instruction.wordOfBytes low high)) w = .ok () w₁)
      (hr : Passes c rest w₁ w₂) : Passes c (low :: high :: rest) w w₂

section

variable {T : Terms} {c : Context} {h₀ h : Heap} {v : Value}

/-- **What an operand holds may be stored.** -/
theorem resolve_fair (hf : Footing T c h₀) (hg : h₀.Grown T h) (hv : T.noArrays → v.Known h)
    {u : Value} (hu : resolve c.scope h v = .ok u) : Fair T h u := by
  have hscope := hf.scope.mono hg.size_le
  unfold resolve at hu
  split at hu
  · split at hu
    · next held hheld =>
      cases hu
      obtain ⟨slots, hslots, hget⟩ := Option.bind_eq_some_iff.mp hheld
      exact hscope.slots _ slots hslots _ (Array.mem_of_getElem? hget)
    · cases hu
  · split at hu
    · next held hheld =>
      cases hu
      exact hscope.globals _ (Array.mem_of_getElem? hheld)
    · cases hu
  · next a index =>
    dsimp only at hu
    split at hu
    · next held hheld =>
      cases hu
      exact hg.allFair hf.heap a _ (Array.mem_of_getElem? hheld)
    · cases hu
  · cases hu
    exact hscope.native _
  · next hslot hglobal helement hnative =>
    cases hu
    refine ⟨hv, fun hb => T.names v hb ?_⟩
    cases v with
    | slot i n => exact absurd rfl (hslot i n)
    | global n => exact absurd rfl (hglobal n)
    | element a n => exact absurd rfl (helement a n)
    | native id => exact absurd rfl (hnative id)
    | _ => rfl

omit T c h₀ in
/-- **A write target that leads somewhere holds something.** -/
theorem resolve_points {scope : Scope} {i : InstanceId} (hv : Points scope i h v) :
    ∃ u, resolve scope h v = .ok u := by
  cases v with
  | slot j n =>
    obtain ⟨rfl, slots, hslots, _, hlt⟩ := hv
    refine ⟨slots.values[n], ?_⟩
    simp [resolve, hslots, hlt]
  | global n =>
    have hlt : n < scope.globals.size := hv
    exact ⟨scope.globals[n], by unfold resolve; dsimp only; rw [Array.getElem?_eq_getElem hlt]⟩
  | element a n =>
    have hlt : n < (h.elements a).size := hv
    exact ⟨(h.elements a)[n], by unfold resolve; dsimp only; rw [Array.getElem?_eq_getElem hlt]⟩
  | native id => exact ⟨_, rfl⟩
  | _ => exact ⟨_, rfl⟩

/-! ## 3. Failures -/

/-- **What is known where an expression fails**: an array without an end is there if that is the
    cause, and while the instance is alive no reference is lost. -/
structure Fails (T : Terms) (c : Context) (h₀ : Heap) (err : EvalError) (w : Workspace) : Prop where
  grown : h₀.Grown T w.heap
  endless : err = .endlessArray → w.heap.Endless
  dangling : T.noPlaces → c.scope.slots? c.self ≠ none → err ≠ .danglingReference

theorem fails_of_ne {err : EvalError} {w : Workspace} (hg : h₀.Grown T w.heap)
    (hn : err ≠ .endlessArray ∧ err ≠ .danglingReference) : Fails T c h₀ err w :=
  ⟨hg, fun he => absurd he hn.1, fun _ _ => hn.2⟩

theorem elementary_error {op : Operation} {a : Value} {err : EvalError}
    (he : elementary op a = .error err) :
    err ≠ .endlessArray ∧ err ≠ .danglingReference := by
  unfold elementary at he
  split at he <;> cases he
  exact ⟨nofun, nofun⟩

theorem arithmetic_error {op : Operation} {a b : Value} {err : EvalError}
    (he : arithmetic op a b = .error err) : err ≠ .endlessArray ∧ err ≠ .danglingReference := by
  unfold arithmetic at he
  split at he
  · cases he
    exact ⟨nofun, nofun⟩
  · cases he
  · cases he
  · split at he <;> cases he
    exact ⟨nofun, nofun⟩

theorem unary_error {iterators : List Int32} {op : Operation} {a : Value} {err : EvalError}
    (he : unary h iterators op a = .error err) :
    err ≠ .endlessArray ∧ err ≠ .danglingReference := by
  unfold unary at he
  split at he
  case h_1 =>
    split at he <;> cases he
    exact ⟨nofun, nofun⟩
  case h_7 =>
    dsimp only at he
    split at he <;> cases he
    exact ⟨nofun, nofun⟩
  case h_8 | h_9 | h_10 => exact elementary_error he
  all_goals
    cases he <;> exact ⟨nofun, nofun⟩

theorem orEndless_error {α : Type} {x : Option α} {err : EvalError}
    (he : orEndless x = .error err) : x = none ∧ err = .endlessArray := by
  unfold orEndless at he
  split at he
  · cases he
  · cases he
    exact ⟨rfl, rfl⟩

theorem endless_of_equal? {a b : Value} (he : h.equal? a b = none) : h.Endless := by
  unfold Heap.equal? at he
  split at he
  case h_5 =>
    split at he
    · cases he
    · exact ⟨_, _, Or.inr he⟩
  all_goals cases he

/-- **An operation on two values** fails for want of an end only at an array that has none. -/
theorem binary_error {op : Operation} {a b : Value} {err : EvalError}
    (he : binary h op a b = .error err) :
    (err = .endlessArray → h.Endless) ∧ err ≠ .danglingReference := by
  have hother (hn : err ≠ .endlessArray ∧ err ≠ .danglingReference) :
      (err = .endlessArray → h.Endless) ∧ err ≠ .danglingReference :=
    ⟨fun h => absurd h hn.1, hn.2⟩
  have hequal {g : Bool → Value} (he : (orEndless (h.equal? a b)).map g = .error err) :
      (err = .endlessArray → h.Endless) ∧ err ≠ .danglingReference := by
    cases hx : orEndless (h.equal? a b) with
    | ok x =>
      rw [hx] at he
      cases he
    | error cause =>
      rw [hx] at he
      cases he
      obtain ⟨hnone, rfl⟩ := orEndless_error hx
      exact ⟨fun _ => endless_of_equal? hnone, nofun⟩
  have hconcatenate (he : concatenate h a b = .error err) :
      (err = .endlessArray → h.Endless) ∧ err ≠ .danglingReference := by
    unfold concatenate at he
    cases hs : h.text? a with
    | none =>
      rw [hs] at he
      cases he
      exact ⟨fun _ => ⟨a, a, Or.inl hs⟩, nofun⟩
    | some s =>
      cases ht : h.text? b with
      | none =>
        rw [hs, ht] at he
        cases he
        exact ⟨fun _ => ⟨b, b, Or.inl ht⟩, nofun⟩
      | some t =>
        rw [hs, ht] at he
        cases he
  unfold binary at he
  split at he
  case h_1 =>
    split at he
    · exact hconcatenate he
    · exact hother (arithmetic_error he)
  case h_11 | h_12 => exact hequal he
  all_goals first
    | exact hother (arithmetic_error he)
    | (unfold bitwise at he; split at he <;> cases he; exact hother ⟨nofun, nofun⟩)
    | (split at he <;> cases he; exact hother ⟨nofun, nofun⟩)
    | (cases he; exact hother ⟨nofun, nofun⟩)
    | cases he

/-! ## 4. Evaluations -/

/-- **The middle of an evaluation**: storages were added, and whatever stands on the stack may. -/
structure Amid (T : Terms) (c : Context) (h₀ : Heap) (w : Workspace) : Prop where
  grown : h₀.Grown T w.heap
  operands : ∀ v ∈ w.stack.values, Operand T c w.heap v

/-- **An evaluation keeps to the operands**, and what it yields is as promised. -/
def Evaluates {α : Type} (T : Terms) (c : Context) (h₀ : Heap) (Q : α → Workspace → Prop)
    (a : Eval α) (w : Workspace) : Prop :=
  Yields (Fails T c h₀) (fun r w' => Amid T c h₀ w' ∧ Q r w') a w

variable {α β : Type} {Q : α → Workspace → Prop} {U : β → Workspace → Prop} {w : Workspace}

theorem evaluates_pure {r : α} (hw : Amid T c h₀ w) (hq : Q r w) :
    Evaluates T c h₀ Q (pure r) w := ⟨hw, hq⟩

/-- A failure that has nothing to do with arrays and references. -/
theorem evaluates_throw {err : EvalError} (hw : Amid T c h₀ w)
    (hn : err ≠ .endlessArray ∧ err ≠ .danglingReference) :
    Evaluates T c h₀ Q (throw err) w := fails_of_ne hw.grown hn

theorem evaluates_bind {a : Eval α} {f : α → Eval β} (ha : Evaluates T c h₀ Q a w)
    (hf : ∀ r w', Amid T c h₀ w' → Q r w' → Evaluates T c h₀ U (f r) w') :
    Evaluates T c h₀ U (a >>= f) w := yields_bind ha fun r w' h => hf r w' h.1 h.2

theorem evaluates_get {f : Workspace → Eval β} (h : Evaluates T c h₀ U (f w) w) :
    Evaluates T c h₀ U (get >>= f) w := h

theorem evaluates_lift {x : Fallible α} (hw : Amid T c h₀ w) (hok : ∀ a, x = .ok a → Q a w)
    (herror : ∀ err, x = .error err → Fails T c h₀ err w) : Evaluates T c h₀ Q (lift x) w := by
  unfold lift
  cases x with
  | ok a => exact evaluates_pure hw (hok a rfl)
  | error err => exact herror err rfl

theorem evaluates_pushValue {v : Value} (hw : Amid T c h₀ w) (hv : Operand T c w.heap v) :
    Evaluates T c h₀ (fun _ _ => True) (pushValue v) w := by
  unfold pushValue
  refine evaluates_get ?_
  split
  · next stack hpush =>
    refine yields_set ⟨⟨hw.grown, fun u hu => ?_⟩, trivial⟩
    unfold Stack.push? at hpush
    split at hpush
    · rw [← Option.some.inj hpush] at hu
      rcases List.mem_cons.mp hu with rfl | hu
      · exact hv
      · exact hw.operands u hu
    · cases hpush
  · exact evaluates_throw hw ⟨nofun, nofun⟩

theorem evaluates_popRaw (hw : Amid T c h₀ w) :
    Evaluates T c h₀ (fun v w' => Operand T c w'.heap v ∧ w'.heap = w.heap) popRaw w := by
  unfold popRaw
  refine evaluates_get ?_
  split
  · next v values hvalues =>
    have hmem (u : Value) (hu : u ∈ v :: values) : Operand T c w.heap u :=
      hw.operands u (hvalues ▸ hu)
    refine yields_set_bind ⟨⟨hw.grown, fun u hu => ?_⟩, ?_, rfl⟩
    · exact hmem u (List.mem_cons_of_mem v hu)
    · exact hmem v List.mem_cons_self
  · exact evaluates_throw hw ⟨nofun, nofun⟩

theorem evaluates_ownSlots (hw : Amid T c h₀ w) :
    Evaluates T c h₀ (fun slots _ => c.scope.slots? c.self = some slots) (ownSlots c) w := by
  unfold ownSlots
  split
  · next slots hslots => exact evaluates_pure hw hslots
  · next hnone => exact ⟨hw.grown, fun he => (nomatch he), fun _ hlive => absurd hnone hlive⟩

theorem evaluates_pushConstant (hw : Amid T c h₀ w) (index : UInt16) :
    Evaluates T c h₀ (fun _ _ => True) (pushConstant c index) w := by
  unfold pushConstant
  split
  · exact evaluates_throw hw ⟨nofun, nofun⟩
  · next literal _ =>
    obtain ⟨hg, hv⟩ := literal.materialize_fair w.heap (T := T)
    refine evaluates_get (yields_set_bind (evaluates_pushValue ⟨hw.grown.trans hg, ?_⟩ ?_))
    · exact fun u hu => (hw.operands u hu).grown hg
    · exact operand_of_fair hv

/-- Reading a value fails where a reference is lost, and no reference is. -/
theorem fails_resolve {v : Value} (hw : Amid T c h₀ w) (hv : Operand T c w.heap v) {err : EvalError}
    (he : resolve c.scope w.heap v = .error err) : Fails T c h₀ err w := by
  refine ⟨hw.grown, fun hendless => ?_, fun hn _ => ?_⟩
  · subst hendless
    unfold resolve at he
    split at he
    · split at he <;> cases he
    · split at he <;> cases he
    · dsimp only at he
      split at he <;> cases he
    · cases he
    · cases he
  · obtain ⟨u, hu⟩ := resolve_points (points_of_noPlaces hn hv.points)
    rw [hu] at he
    cases he

variable (hf : Footing T c h₀)
include hf

theorem evaluates_popValue (hw : Amid T c h₀ w) :
    Evaluates T c h₀ (fun v w' => Fair T w'.heap v ∧ w'.heap = w.heap) (popValue c.scope) w := by
  unfold popValue
  refine evaluates_bind (evaluates_popRaw hw) fun v w hw ⟨hv, hheap⟩ => evaluates_get ?_
  exact evaluates_lift hw (fun u hu => ⟨resolve_fair hf hw.grown hv.known hu, hheap⟩)
    fun err he => fails_resolve hw hv he

/-! ## 5. Instructions -/

theorem evaluates_pushInput (hw : Amid T c h₀ w) (slot : UInt16) :
    Evaluates T c h₀ (fun _ _ => True) (pushInput c slot) w := by
  unfold pushInput
  refine evaluates_bind (evaluates_ownSlots hw) fun slots w hw hslots => ?_
  split
  · split
    · next v hv =>
      have hfair := (hf.scope.mono hw.grown.size_le).slots _ slots hslots v
        (Array.mem_of_getElem? hv)
      exact evaluates_pushValue hw (operand_of_fair hfair)
    · exact evaluates_throw hw ⟨nofun, nofun⟩
  · exact evaluates_throw hw ⟨nofun, nofun⟩

omit hf in
theorem evaluates_pushLocal (hw : Amid T c h₀ w) (index : UInt16) :
    Evaluates T c h₀ (fun _ _ => True) (pushLocal c index) w := by
  unfold pushLocal
  refine evaluates_bind (evaluates_ownSlots hw) fun slots w hw hslots => ?_
  dsimp only
  split
  · next hlt =>
    refine evaluates_pushValue hw ⟨fun _ a ha => (nomatch ha), fun _ => ?_⟩
    exact ⟨rfl, slots, hslots, Nat.le_add_right _ _, hlt⟩
  · exact evaluates_throw hw ⟨nofun, nofun⟩

omit hf in
theorem operand_globalTarget (h : Heap) (index : UInt16) :
    Operand T c h (globalTarget c.scope.globals.size index) := by
  unfold globalTarget
  split
  · next hlt => exact ⟨fun _ a ha => (nomatch ha), fun _ => hlt⟩
  · exact ⟨fun _ a ha => (nomatch ha), fun _ => trivial⟩

theorem evaluates_selectElement (hw : Amid T c h₀ w) :
    Evaluates T c h₀ (fun _ _ => True) (selectElement c) w := by
  unfold selectElement
  refine evaluates_bind (evaluates_popValue hf hw) fun indexValue w hw _ => ?_
  refine evaluates_bind (evaluates_popValue hf hw) fun arrayValue w hw harray => ?_
  split
  · split
    · exact evaluates_throw hw (by simp)
    · refine evaluates_get ?_
      dsimp only
      split
      · exact evaluates_throw hw (by simp)
      · next index _ hbounds =>
        exact evaluates_pushValue hw ⟨fun hn b hb => harray.1.known hn b hb, fun _ => by
          unfold Points
          omega⟩
  · exact evaluates_throw hw (by simp)

theorem evaluates_applyOperation (hw : Amid T c h₀ w) (op : Operation) :
    Evaluates T c h₀ (fun _ _ => True) (applyOperation c op) w := by
  unfold applyOperation
  split
  · refine evaluates_bind (evaluates_popValue hf hw) fun a w hw _ => evaluates_get ?_
    refine evaluates_bind (Q := fun v _ => v.Bare) (evaluates_lift hw (fun v => unary_bare)
      fun err he => fails_of_ne hw.grown (unary_error he)) fun v w hw hv => ?_
    exact evaluates_pushValue hw (operand_of_fair (fair_of_bare hv))
  · refine evaluates_bind (evaluates_popValue hf hw) fun b w hw _ => ?_
    refine evaluates_bind (evaluates_popValue hf hw) fun a w hw _ => evaluates_get ?_
    refine evaluates_bind (Q := fun v _ => v.Bare) (evaluates_lift hw (fun v => binary_bare)
      fun err he => ?_) fun v w hw hv => ?_
    · exact ⟨hw.grown, (binary_error he).1, fun _ _ => (binary_error he).2⟩
    · exact evaluates_pushValue hw (operand_of_fair (fair_of_bare hv))
  · refine evaluates_bind (evaluates_popValue hf hw) fun whenFalse w hw ⟨hfalse, _⟩ => ?_
    refine evaluates_bind (evaluates_popValue hf hw) fun whenTrue w hw ⟨htrue, hheap⟩ => ?_
    rw [← hheap] at hfalse
    refine evaluates_bind (evaluates_popValue hf hw) fun condition w hw ⟨_, hheap⟩ => ?_
    rw [← hheap] at hfalse htrue
    refine evaluates_get (evaluates_pushValue hw (operand_of_fair ?_))
    split
    · exact htrue
    · exact hfalse

/-- **One instruction** leaves operands that lead somewhere. -/
theorem evaluates_step (hw : Amid T c h₀ w) (i : Instruction) :
    Evaluates T c h₀ (fun _ _ => True) (step c i) w := by
  cases i with
  | pushConstant index => exact evaluates_pushConstant hw index
  | pushInput slot => exact evaluates_pushInput hf hw slot
  | pushLocal index => exact evaluates_pushLocal hw index
  | pushGlobal index => exact evaluates_pushValue hw (operand_globalTarget w.heap index)
  | pushOutput index =>
    exact evaluates_pushValue hw ⟨fun _ a ha => (nomatch ha), fun _ => trivial⟩
  | arrayElement => exact evaluates_selectElement hf hw
  | operation index =>
    unfold step
    dsimp only
    split
    · exact evaluates_applyOperation hf hw _
    · exact evaluates_throw hw ⟨nofun, nofun⟩
  | stop => exact evaluates_pure hw trivial

/-! ## 6. Streams -/

theorem evaluates_run : ∀ (bytes : List UInt8) {w : Workspace}, Amid T c h₀ w →
    Evaluates T c h₀ (fun _ _ => True) (run c bytes) w
  | low :: high :: rest, w, hw => by
    unfold run
    dsimp only
    split
    · exact evaluates_pure hw trivial
    · refine evaluates_bind (evaluates_step hf hw _) fun _ w hw _ => ?_
      exact evaluates_bind (evaluates_run rest hw) fun _ w hw _ => evaluates_pure hw trivial
  | [], w, hw | [_], w, hw => evaluates_throw hw ⟨nofun, nofun⟩

omit hf in
theorem amid_cleared (hg : h₀.Grown T w.heap) :
    Amid T c h₀ { w with stack := w.stack.cleared } := ⟨hg, fun _ hv => nomatch hv⟩

theorem evaluates_runToResult (hg : h₀.Grown T w.heap) (bytes : List UInt8) :
    Evaluates T c h₀ (fun r w' => Operand T c w'.heap r.1) (runToResult c bytes) w := by
  unfold runToResult
  refine yields_modify_bind ?_
  refine evaluates_bind (evaluates_run hf bytes (amid_cleared hg)) fun _ w hw _ => ?_
  have hsingle : Evaluates T c h₀ (fun v w' => Operand T c w'.heap v) singleResult w := by
    unfold singleResult
    refine evaluates_get ?_
    dsimp only
    split
    · exact (evaluates_popRaw hw).mono (fun _ _ => id) fun _ _ h => ⟨h.1, h.2.1⟩
    · exact evaluates_throw hw ⟨nofun, nofun⟩
  exact evaluates_bind hsingle fun v w hw hv => evaluates_pure hw hv

/-- **The value of a stream may be stored.** -/
theorem evaluates_value (hg : h₀.Grown T w.heap) (bytes : List UInt8) :
    Evaluates T c h₀ (fun r w' => Fair T w'.heap r.1) (evaluate c bytes) w := by
  unfold evaluate
  refine evaluates_bind (evaluates_runToResult hf hg bytes) fun r w hw hr => evaluates_get ?_
  refine evaluates_bind (Q := fun v w' => Fair T w'.heap v)
    (evaluates_lift hw (fun u hu => resolve_fair hf hw.grown hr.known hu)
      fun err he => fails_resolve hw hr he) fun v w hw hv => ?_
  exact evaluates_pure hw hv

/-- **The write target of a stream leads somewhere.** -/
theorem evaluates_target (hg : h₀.Grown T w.heap) (bytes : List UInt8) :
    Evaluates T c h₀ (fun r w' => r.1.isAssignable = true ∧ Operand T c w'.heap r.1)
      (evaluateTarget c bytes) w := by
  unfold evaluateTarget
  refine evaluates_bind (evaluates_runToResult hf hg bytes) fun r w hw hr => ?_
  dsimp only
  split
  · next ha => exact evaluates_pure hw ⟨ha, hr⟩
  · exact evaluates_throw hw ⟨nofun, nofun⟩

/-! ## 7. The moments of a stream -/

/-- **Whatever stands on the stack at such a moment may.** -/
theorem amid_of_passes {bytes : List UInt8} {w w' : Workspace} (hp : Passes c bytes w w')
    (hw : Amid T c h₀ w) : Amid T c h₀ w' := by
  induction hp with
  | here => exact hw
  | onward _ hs _ ih => exact ih ((evaluates_step hf hw _).of_ok hs).1

end

end Expression

end InstrumentFlow
