import InstrumentFlow.Bytecode.Assembler
import InstrumentFlow.Proofs.Storage.Runs

/-!
# References

A write target is computed where an expression asks for one, and it is used up by the assignment or
kept by a loop. Where the host hands in none that lead to storage, none is ever stored, so that one
look is enough to read what a reference leads to, and the ones that are kept lead somewhere as long
as they are kept.

* `LeadsSomewhere` -- where the variable of a loop may lead;
* `Grounded` -- references stay out of storage, and the ones that loops keep lead somewhere;
* `Stock.grounded`, `Stock.resolve_once` -- what the stock says about references;
* `operands_resolve`, `evaluate_plain`, `evaluation_finds` -- the same in the middle of an
  expression and at its end;
* `step_not_stale` -- no step fails for want of what a reference leads to;
* `references_never_dangle` -- all of this in every run.
-/

namespace InstrumentFlow

open Expression (Passes Workspace evaluate evaluateTarget resolve)

namespace Engine

/-! ## 1. Grounded references -/

/-- **Where the variable of a loop of the instance `i` may lead**: to a local variable of that
    instance, which is alive, to a global variable, to an element within an array, to a native
    variable or to an output. -/
def LeadsSomewhere (e : Engine) (i : InstanceId) : Value → Prop
  | .slot j n => j = i ∧ ∃ s, e.instance? i = some s ∧ s.inputCount ≤ n ∧ n < s.values.size
  | .global n => n < e.globals.size
  | .element a n => n < (e.heap.elements a).size
  | .native _ | .output _ => True
  | _ => False

/-- **References stay out of storage, and the ones that loops keep lead somewhere.** -/
structure Grounded (e : Engine) : Prop where
  slots : ∀ i s, e.instance? i = some s → ∀ v ∈ s.values, v.Plain
  globals : ∀ v ∈ e.globals, v.Plain
  elements : ∀ a, ∀ v ∈ e.heap.elements a, v.Plain
  loops : ∀ i s, e.instance? i = some s → ∀ l, some (.loop l) ∈ s.progress →
    e.LeadsSomewhere i l.destination

section

variable {T : Terms} {e : Engine}

theorem Leads.leadsSomewhere {i : InstanceId} {v : Value} (hv : Leads T e i v)
    (hn : T.noPlaces) : e.LeadsSomewhere i v := by
  have hpoints := Expression.points_of_noPlaces hn hv.points
  cases v with
  | slot j n =>
    obtain ⟨hj, slots, hslots, hle, hlt⟩ := hpoints
    obtain ⟨s, hs, rfl⟩ := Option.map_eq_some_iff.mp hslots
    exact ⟨hj, s, hs, hle, hlt⟩
  | global n => exact hpoints
  | element a n => exact hpoints
  | native id => trivial
  | output n => trivial
  | _ => cases hv.assignable

variable (hs : e.Stock T) (hn : T.noPlaces)
include hs hn

theorem Stock.grounded : e.Grounded where
  slots i s hi v hv := (hs.slots i s hi v hv).plain hn
  globals v hv := (hs.globals v hv).plain hn
  elements a v hv := (hs.heap a v hv).plain hn
  loops i s hi l hl := (hs.loops i s hi l hl).leadsSomewhere hn

/-- **One look is enough**: what a write target holds stands for itself. -/
theorem Stock.resolve_once (hna : ¬ T.noArrays) {v u : Value}
    (hu : resolve e.scope e.heap v = .ok u) : resolve e.scope e.heap u = .ok u := by
  -- whoever looks, what is stored is the same
  have hfair : Fair T e.heap u := Expression.resolve_fair (hs.footing ⟨0, 0⟩ []) .refl
    (fun h => absurd h hna) hu
  have hplain : u.Plain := hfair.plain hn
  cases u with
  | slot i n => cases hplain
  | global n => cases hplain
  | element a n => cases hplain
  | native id => cases hplain
  | _ => rfl

/-! ## 2. Expressions -/

/-- **Whatever stands on the stack can be read**, at every moment of an expression. -/
theorem Stock.operands_resolve {i : InstanceId} {iterators : List Int32} {code : List UInt8}
    {stack : Expression.Stack} {w : Workspace}
    (hp : Passes ⟨e.scope, i, iterators⟩ code ⟨stack.cleared, e.heap⟩ w) {v : Value}
    (hv : v ∈ w.stack.values) : ∃ u, resolve e.scope w.heap v = .ok u := by
  have hbegin : Expression.Amid T ⟨e.scope, i, iterators⟩ e.heap ⟨stack.cleared, e.heap⟩ :=
    Expression.amid_cleared (w := ⟨stack, e.heap⟩) .refl
  have hamid := Expression.amid_of_passes (hs.footing i iterators) hp hbegin
  exact Expression.resolve_points (Expression.points_of_noPlaces hn (hamid.operands v hv).points)

/-- **The value of an expression names no place.** -/
theorem Stock.evaluate_plain {i : InstanceId} {iterators : List Int32} {code : List UInt8}
    {stack : Expression.Stack} {r : Value × Nat} {w : Workspace}
    (hr : evaluate ⟨e.scope, i, iterators⟩ code ⟨stack, e.heap⟩ = .ok r w) : r.1.Plain :=
  ((Expression.evaluates_value (hs.footing i iterators) .refl code).of_ok hr).2.plain hn

/-- **An expression of a live instance loses no reference.** -/
theorem Stock.evaluation_finds {i : InstanceId} (hl : e.instance? i ≠ none)
    {iterators : List Int32} {code : List UInt8} {stack : Expression.Stack} {cause : EvalError}
    {w : Workspace}
    (hr : evaluate ⟨e.scope, i, iterators⟩ code ⟨stack, e.heap⟩ = .error cause w
      ∨ evaluateTarget ⟨e.scope, i, iterators⟩ code ⟨stack, e.heap⟩ = .error cause w) :
    cause ≠ .danglingReference := by
  have hslots : e.scope.slots? i ≠ none := fun hnone => hl (Option.map_eq_none_iff.mp hnone)
  have hf := hs.footing i iterators
  rcases hr with hr | hr
  · exact ((Expression.evaluates_value hf .refl code).of_error hr).dangling hn hslots
  · exact ((Expression.evaluates_target hf .refl code).of_error hr).dangling hn hslots

/-! ## 3. Steps -/

/-- **No step fails for want of what a reference leads to.** -/
theorem step_not_stale (handler : Handler) (hi : Inv False e) (hh : e.definition.Hostless)
    {t : Task} {c : Component} (hc : e.componentOf? t.instanceId t.component = some c)
    {err : FlowError} {e' : Engine}
    (he : execute handler t.instanceId t.component c
      (((e.debuggerBlocks t).2.takeTask t).beginStep t) = .error err e') : err.isStale = false := by
  have hblock : Deposits T False e (e.debuggerBlocks t).2 := (quiet_debuggerBlocks e t).deposits
  have htake : Deposits T False e ((e.debuggerBlocks t).2.takeTask t) :=
    hblock.trans (quiet_takeTask _ t).deposits
  have hleaps : Leaps False True False e (e.debuggerBlocks t).2 := leaps_debuggerBlocks hi .refl t
  have hi' : Inv False ((e.debuggerBlocks t).2.takeTask t) :=
    (touches_takeTask t).inv (hleaps.inv hi)
  have hc' : ((e.debuggerBlocks t).2.takeTask t).componentOf? t.instanceId t.component
      = some c := by
    rw [debuggerBlocks_snd]
    exact hc
  have hstep := sustains_step handler hi' (htake.definition ▸ hh) (htake.stock hs) hc'
  exact (hstep.of_error he).2 hn trivial

end

/-! ## 4. Every run -/

/-- **References never reach storage and never dangle.** In every run of flows without components of
    the host, where neither the orders of the host nor its native variables hand in a write target
    that leads to storage, between calls and between the steps of a tick: no slot, no global
    variable and no element of an array holds a reference, and the variable of every loop is there.
    So one look is enough to read a reference, no expression has a reference as its value or meets
    one that it cannot read, and no step of a component fails for want of what a reference leads
    to. -/
theorem references_never_dangle {d : Definition} {config : Config} {dispatcher : Dispatcher}
    {host : Host} {e₀ : Engine} (hb : build d config dispatcher host = .ok e₀) (hh : d.Hostless)
    (hn : host.Meets placeless) (moves : List Move) (hm : e₀.KeepsTo placeless moves)
    (count : Nat) (allowance : Option Nat) (report : TickReport) {e : Engine}
    (he : e = (runTasks handler count allowance report (e₀.after moves)).2) :
    e.Grounded
    ∧ (∀ v u, resolve e.scope e.heap v = .ok u → resolve e.scope e.heap u = .ok u)
    ∧ (∀ i iterators code stack r w,
        evaluate ⟨e.scope, i, iterators⟩ code ⟨stack, e.heap⟩ = .ok r w → r.1.Plain)
    ∧ (∀ i iterators code stack w,
        Passes ⟨e.scope, i, iterators⟩ code ⟨Expression.Stack.cleared stack, e.heap⟩ w →
        ∀ v ∈ w.stack.values, ∃ u, resolve e.scope w.heap v = .ok u)
    ∧ (∀ i iterators code stack cause w, e.instance? i ≠ none →
        evaluate ⟨e.scope, i, iterators⟩ code ⟨stack, e.heap⟩ = .error cause w
          ∨ evaluateTarget ⟨e.scope, i, iterators⟩ code ⟨stack, e.heap⟩ = .error cause w →
        cause ≠ .danglingReference)
    ∧ ∀ t c, e.componentOf? t.instanceId t.component = some c → ∀ err e',
        execute handler t.instanceId t.component c
          (((e.debuggerBlocks t).2.takeTask t).beginStep t) = .error err e' →
        err.isStale = false := by
  have hplaces : placeless.noPlaces := fun _ => id
  obtain ⟨hs₀, hdeposits⟩ := deposits_between hb hh hn moves hm count allowance report
  rw [← he] at hdeposits
  have hs : e.Stock placeless := hdeposits.stock hs₀
  have hd₀ : e₀.definition = d := by
    rw [(build_eq_ok_iff.mp hb).2]
    rfl
  have hhost : e.definition.Hostless := by
    rw [hdeposits.definition, hd₀]
    exact hh
  have hi : Inv False e :=
    he ▸ (leaps_amid hb hh moves count allowance report).inv (inv_build hb False.elim)
  refine ⟨hs.grounded hplaces, fun v u hu => hs.resolve_once hplaces id hu, ?_, ?_, ?_, ?_⟩
  · exact fun i iterators code stack r w hr => hs.evaluate_plain hplaces hr
  · exact fun i iterators code stack w hp v hv => hs.operands_resolve hplaces hp hv
  · exact fun i iterators code stack cause w hl hr => hs.evaluation_finds hplaces hl hr
  · exact fun t c hc err e' he => step_not_stale hs hplaces handler hi hhost hc he

/-- A loop over a global variable. -/
def countingDefinition : Definition :=
  { constants := [.undefined, .null, .int 0, .int 3, .int 1]
    globals := [.int 7]
    flows :=
      [{ name := "main"
         components :=
           [{ kind := .loop
              properties :=
                [⟨(({} : Bytecode.Assembler).global 0).finish⟩,
                 ⟨(({} : Bytecode.Assembler).constant 2).finish⟩,
                 ⟨(({} : Bytecode.Assembler).constant 3).finish⟩,
                 ⟨(({} : Bytecode.Assembler).constant 4).finish⟩] }] }] }

/-- The flow is started, and the loop begins. -/
def countingMoves : List Move := [.order ⟨.startFlow 0, none⟩, .tick none]

/-- The loop has begun. -/
def counting : Engine :=
  (runTasks handler 0 none {} ((built countingDefinition {} .absent {}).after countingMoves)).2

/-- A loop over a global variable keeps a reference to it from one tick to the next. -/
theorem references_never_dangle_counting :
    build countingDefinition {} .absent {} = .ok (built countingDefinition {} .absent {})
    ∧ countingDefinition.Hostless
    ∧ Host.Meets placeless {}
    ∧ (built countingDefinition {} .absent {}).KeepsTo placeless countingMoves
    ∧ (∃ s, counting.instance? ⟨0, 0⟩ = some s
        ∧ some (.loop ⟨.global 0, .int 3, .int 1⟩) ∈ s.progress)
    ∧ counting.LeadsSomewhere ⟨0, 0⟩ (.global 0) := by
  have hb : build countingDefinition {} .absent {}
      = .ok (built countingDefinition {} .absent {}) := rfl
  have hh : countingDefinition.Hostless := by decide +kernel
  have hn : Host.Meets placeless {} := Host.meets_empty placeless
  have hm : (built countingDefinition {} .absent {}).KeepsTo placeless countingMoves :=
    ⟨trivial, trivial, trivial⟩
  have hloop : (counting.instance? ⟨0, 0⟩).any
      (fun s => decide (some (.loop ⟨.global 0, .int 3, .int 1⟩) ∈ s.progress)) = true := by
    decide +kernel
  obtain ⟨s, hs, hdecided⟩ := (Option.any_eq_true _ _).mp hloop
  have hkept := of_decide_eq_true hdecided
  obtain ⟨hgrounded, _⟩ := references_never_dangle hb hh hn countingMoves hm 0 none {}
    (e := counting) rfl
  have hleads := hgrounded.loops _ s hs _ hkept
  exact ⟨hb, hh, hn, hm, ⟨s, hs, hkept⟩, hleads⟩

end Engine

end InstrumentFlow
