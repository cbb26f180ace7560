import InstrumentFlow.Bytecode.Assembler
import InstrumentFlow.Proofs.Containment.Cycles
import InstrumentFlow.Proofs.Storage.Runs

/-!
# Arrays inside arrays

Arrays are shared: who holds the handle of one can write its elements, with handles of other arrays
too. Where the host hands in no arrays but those that it writes out, every new array holds what was
there before it, and values that go from place to place bring no new handles into an array. So only
an assignment to an element can make an array contain itself, and only if the assigned value already
leads to that array.

* `arrayless` -- the terms of a host that hands in no arrays of others;
* `ClosesNoArray` -- no assignment to an element closed a cycle, read off a journal;
* `Founded` -- no array contains itself, and nothing broke down for want of an end;
* `Deposit.founded`, `Deposits.founded` -- deposits keep it;
* `containment_acyclic` -- texts and comparisons have an end in every such run;
* `array_contains_itself` -- what one assignment can do.
-/

namespace InstrumentFlow

/-- The terms of a host that hands in no arrays but those that it writes out. -/
def arrayless : Terms := { lawless with noArrays := True }

namespace Engine

/-! ## 1. Assignments that close a cycle -/

/-- **No assignment to an element closed a cycle**: no value that was assigned led to the storage of
    the element, as the storages were before the assignment. -/
def ClosesNoArray (events : List Event) : Prop :=
  ∀ a index v h, .assigned (.element a index) v h ∈ events → ¬ h.Reaches v a

theorem ClosesNoArray.of_subset {events earlier : List Event} (h : ClosesNoArray events)
    (hsubset : earlier ⊆ events) : ClosesNoArray earlier :=
  fun a index v heap hmem => h a index v heap (hsubset hmem)

/-- **No array contains itself, and nothing broke down for want of an end.** -/
structure Founded (e : Engine) : Prop where
  acyclic : e.heap.Acyclic
  unbroken : e.breakdown ≠ some .endlessArray

section

variable {T : Terms} {staying : Prop} {e e' : Engine}

theorem Deposit.chronicle_subset (h : Deposit T staying e e') : e.chronicle ⊆ e'.chronicle := by
  cases h with
  | rest h => exact fun event hmem => h.chronicle ▸ hmem
  | assignSlot | assignGlobal | assignElement | begin => exact List.subset_cons_self _ _
  | _ => exact fun event hmem => hmem

/-- The storages and what broke down stay as they are. -/
theorem Founded.of_same (h : e.Founded) (hh : e'.heap = e.heap)
    (hb : e'.breakdown = e.breakdown) : e'.Founded where
  acyclic := hh ▸ h.acyclic
  unbroken := hb ▸ h.unbroken

/-! ## 2. Deposits -/

/-- **A deposit keeps it**, unless it closes a cycle. -/
theorem Deposit.founded (h : Deposit T staying e e') (hn : T.noArrays) (hs : e.Stock T)
    (hf : e.Founded) (hc : ClosesNoArray e'.chronicle) : e'.Founded := by
  cases h with
  | rest h => exact hf.of_same h.heap h.breakdown
  | aside stack hg => exact ⟨hf.acyclic.grown hn hs.heap hg, hf.unbroken⟩
  | breakDown b hb =>
    -- only an array that contains itself is without an end, and there is none yet
    refine ⟨hf.acyclic, fun hbroken => ?_⟩
    rcases Option.or_eq_some_iff.mp hbroken with hbroken | ⟨_, hbroken⟩
    · exact hf.unbroken hbroken
    · exact hf.acyclic.not_endless (hb (Option.some.inj hbroken))
  | @assignElement a index prior v _ _ =>
    have hmem : Event.assigned (.element a index) v e.heap ∈ (.assigned (.element a index) v e.heap
        :: e.chronicle) := List.mem_cons_self
    exact ⟨hf.acyclic.write (hc a index v e.heap hmem), hf.unbroken⟩
  | @begin flow f parent isAction _ _ _ _ =>
    have hg := (freshInstance_fair (T := T) flow f parent isAction e.heap).1
    exact ⟨hf.acyclic.grown hn hs.heap hg, hf.unbroken⟩
  | _ => exact hf.of_same rfl rfl

theorem Deposits.founded (h : Deposits T staying e e') (hn : T.noArrays) (hs : e.Stock T)
    (hf : e.Founded) (hc : ClosesNoArray e'.chronicle) : e'.Founded := by
  induction h with
  | refl => exact hf
  | tail hd h ih =>
    exact h.founded hn (Deposits.stock hd hs) (ih (hc.of_subset h.chronicle_subset)) hc

theorem founded_built (d : Definition) (config : Config) (dispatcher : Dispatcher) (host : Host) :
    (built d config dispatcher host).Founded where
  acyclic := by
    obtain ⟨hg, _⟩ := Literal.materializeList_fair (T := arrayless) d.globals {}
    exact Heap.acyclic_empty.grown trivial Heap.allFair_empty hg
  unbroken := nofun

end

/-! ## 3. Every run -/

/-- **No array contains itself, unless an assignment to an element makes it.** In every run of flows
    without components of the host, where neither the orders of the host nor its native variables
    hand in arrays but those that the host writes out, between calls and between the steps of a
    tick: as long as no value was assigned to an element of an array that it already led to, no
    array contains itself, however far down. Then each value has a text and each comparison an end,
    and nothing has broken down for want of one. An assignment of the other sort closes a cycle
    every time. -/
theorem containment_acyclic {d : Definition} {config : Config} {dispatcher : Dispatcher}
    {host : Host} {e₀ : Engine} (hb : build d config dispatcher host = .ok e₀) (hh : d.Hostless)
    (hn : host.Meets arrayless) (moves : List Move) (hm : e₀.KeepsTo arrayless moves)
    (count : Nat) (allowance : Option Nat) (report : TickReport) {e : Engine}
    (he : e = (runTasks handler count allowance report (e₀.after moves)).2)
    (hc : ClosesNoArray e.journal) :
    e.heap.Acyclic
    ∧ (∀ v, e.heap.text? v ≠ none)
    ∧ (∀ v w, e.heap.same? v w ≠ none ∧ e.heap.equal? v w ≠ none)
    ∧ e.breakdown ≠ some .endlessArray
    ∧ ∀ a index v, index < (e.heap.elements a).size → e.heap.Reaches v a →
        ¬ (e.heap.write a index v).Acyclic := by
  obtain ⟨hs₀, hdeposits⟩ := deposits_between hb hh hn moves hm count allowance report
  rw [← he] at hdeposits
  have hf₀ : e₀.Founded :=
    (build_eq_ok_iff.mp hb).2 ▸ founded_built d config dispatcher host
  have hchronicle : ClosesNoArray e.chronicle := hc.of_subset (List.filter_subset_self _)
  have hf : e.Founded := hdeposits.founded trivial hs₀ hf₀ hchronicle
  refine ⟨hf.acyclic, hf.acyclic.text?_ne_none, fun v w => ?_, hf.unbroken, ?_⟩
  · exact ⟨hf.acyclic.same?_ne_none v w, hf.acyclic.equal?_ne_none v w⟩
  · exact fun a index v hi hv => Heap.cyclic_write hi hv

/-- A flow with two arrays that assigns the local variable `assigned` to the first element of its
    variable 0. -/
def nestingDefinition (assigned : UInt16) : Definition :=
  { constants := [.undefined, .null, .int 0]
    flows :=
      [{ name := "main"
         locals := [.array [.undefined], .array [.int 1]]
         components :=
           [{ kind := .setVariable
              properties :=
                [⟨((({} : Bytecode.Assembler).local 0).constant 2).element.finish⟩,
                 ⟨(({} : Bytecode.Assembler).local assigned).finish⟩] }] }] }

/-- The flow is started, and the assignment is made. -/
def nestingMoves : List Move := [.order ⟨.startFlow 0, none⟩, .tick none]

/-- The assignment has been made. -/
def nested (assigned : UInt16) : Engine :=
  (runTasks handler 0 none {}
    ((built (nestingDefinition assigned) {} .absent {}).after nestingMoves)).2

/-- Whether the assignments to elements brought in nothing but arrays without arrays, and those not
    into themselves. -/
def nestsFlatly : Event → Bool
  | .assigned (.element a _) v h =>
    v.handle?.all fun b => b != a && (h.elements b).all (·.handle?.isNone)
  | _ => true

theorem closesNoArray_of_flat {events : List Event} (h : events.all nestsFlatly = true) :
    ClosesNoArray events := by
  rintro a index v heap hmem ⟨b, hb, hba⟩
  have hflat : (v.handle?.all fun b => b != a && (heap.elements b).all (·.handle?.isNone)) = true :=
    List.all_eq_true.mp h _ hmem
  rw [hb, Option.all_some, Bool.and_eq_true] at hflat
  obtain ⟨hne, hnothing⟩ := hflat
  rcases Relation.ReflTransGen.cases_head hba with heq | ⟨c, ⟨w, hw, hc⟩, _⟩
  · exact bne_iff_ne.mp hne heq
  · have hnone := Array.all_eq_true_iff_forall_mem.mp hnothing w hw
    rw [hc] at hnone
    cases hnone

/-- One array is in another one, and both have a text. -/
theorem containment_acyclic_nested :
    build (nestingDefinition 1) {} .absent {} = .ok (built (nestingDefinition 1) {} .absent {})
    ∧ (nestingDefinition 1).Hostless
    ∧ Host.Meets arrayless {}
    ∧ (built (nestingDefinition 1) {} .absent {}).KeepsTo arrayless nestingMoves
    ∧ ClosesNoArray (nested 1).journal
    ∧ (nested 1).heap.elements ⟨0⟩ = #[.array ⟨1⟩]
    ∧ (nested 1).heap.text? (.array ⟨0⟩) ≠ none := by
  have hb : build (nestingDefinition 1) {} .absent {}
      = .ok (built (nestingDefinition 1) {} .absent {}) := rfl
  have hh : (nestingDefinition 1).Hostless := by decide +kernel
  have hn : Host.Meets arrayless {} := Host.meets_empty arrayless
  have hm : (built (nestingDefinition 1) {} .absent {}).KeepsTo arrayless nestingMoves :=
    ⟨trivial, trivial, trivial⟩
  have hflat : (nested 1).journal.all nestsFlatly = true := by decide +kernel
  have hholds : (nested 1).heap.elements ⟨0⟩ = #[.array ⟨1⟩] := by decide +kernel
  have hc : ClosesNoArray (nested 1).journal := closesNoArray_of_flat hflat
  obtain ⟨_, htext, _⟩ := containment_acyclic hb hh hn nestingMoves hm 0 none {}
    (e := nested 1) rfl hc
  exact ⟨hb, hh, hn, hm, hc, hholds, htext _⟩

/-- **An array can be assigned to its own element.** The local variable has no text then. -/
theorem array_contains_itself :
    build (nestingDefinition 0) {} .absent {} = .ok (built (nestingDefinition 0) {} .absent {})
    ∧ (nestingDefinition 0).Hostless
    ∧ Host.Meets arrayless {}
    ∧ (built (nestingDefinition 0) {} .absent {}).KeepsTo arrayless nestingMoves
    ∧ ((nested 0).instance? ⟨0, 0⟩).bind (·.local? 0) = some (.array ⟨0⟩)
    ∧ (nested 0).heap.elements ⟨0⟩ = #[.array ⟨0⟩]
    ∧ (nested 0).heap.text? (.array ⟨0⟩) = none
    ∧ ¬ (nested 0).heap.Acyclic := by
  have hb : build (nestingDefinition 0) {} .absent {}
      = .ok (built (nestingDefinition 0) {} .absent {}) := rfl
  have hh : (nestingDefinition 0).Hostless := by decide +kernel
  have hn : Host.Meets arrayless {} := Host.meets_empty arrayless
  have hm : (built (nestingDefinition 0) {} .absent {}).KeepsTo arrayless nestingMoves :=
    ⟨trivial, trivial, trivial⟩
  have hlocal : ((nested 0).instance? ⟨0, 0⟩).bind (·.local? 0) = some (.array ⟨0⟩) := by
    decide +kernel
  have hholds : (nested 0).heap.elements ⟨0⟩ = #[.array ⟨0⟩] := by decide +kernel
  have htext : (nested 0).heap.text? (.array ⟨0⟩) = none := by decide +kernel
  exact ⟨hb, hh, hn, hm, hlocal, hholds, htext, fun hac => hac.text?_ne_none _ htext⟩

end Engine

end InstrumentFlow
