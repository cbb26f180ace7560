import InstrumentFlow.Proofs.Storage.Operands
import InstrumentFlow.Proofs.Wiring

/-!
# Deposits

What a running program does to slots, variables, array storages and the variables of loops, one
deposit after the other, and what the host may bring in under its terms.

* `Value.Replaces` -- a value of the kind that a variable keeps;
* `FlowError.isStale` -- a failure for want of what a reference leads to;
* `Natives.Fair` -- native variables under the terms of the host;
* `Event.isStorage`, `Engine.chronicle` -- the beginnings of instances and the assignments;
* `Quiet` -- nothing comes into storage;
* `Leads` -- a write target that leads somewhere;
* `Deposit` -- one deposit, with what is known where it happens; `Deposits` -- deposits in a row;
* `Deposit.spans` -- what was there before is still there, but for instances that go;
* `Stock` -- whatever is stored may be, and the variables of loops are there;
* `Deposits.stock` -- deposits keep the stock;
* `Deposits.leads` -- while nobody goes, a write target goes on leading somewhere.
-/

namespace InstrumentFlow

open Expression (Points)

/-! ## 1. Kinds that are kept -/

/-- Whether a variable keeps the kind of the value. -/
def Value.isTyped : Value → Bool
  | int _ | float _ | double _ | string _ => true
  | _ => false

/-- The value has the kind of the one that it replaces, if that is to be kept. -/
def Value.Replaces (prior v : Value) : Prop := prior.isTyped = true → v.kind = prior.kind

theorem coerce_replaces {h : Heap} {prior v w : Value} (hw : coerce h prior v = some w) :
    prior.Replaces w := by
  unfold coerce at hw
  split at hw
  case h_4 =>
    obtain ⟨s, _, rfl⟩ := Option.map_eq_some_iff.mp hw
    exact fun _ => rfl
  case h_5 hint hfloat hdouble hstring =>
    intro ht
    cases prior with
    | int i => exact absurd rfl (hint i)
    | float x => exact absurd rfl (hfloat x)
    | double x => exact absurd rfl (hdouble x)
    | string s => exact absurd rfl (hstring s)
    | _ => cases ht
  all_goals
    cases hw
    exact fun _ => rfl

/-- Whether an event tells of an instance that begins or of an assignment. -/
def Event.isStorage : Event → Bool
  | created _ _ | assigned _ _ _ => true
  | _ => false

/-- **The contents go on as they were**, and no loop is new. -/
structure Instance.Holds (s s' : Instance) : Prop where
  flow_eq : s'.flow = s.flow
  values_eq : s'.values = s.values
  inputCount_eq : s'.inputCount = s.inputCount
  loops : ∀ l, some (.loop l) ∈ s'.progress → some (.loop l) ∈ s.progress

namespace Instance.Holds

theorem refl (s : Instance) : s.Holds s := ⟨rfl, rfl, rfl, fun _ => id⟩

theorem trans {s s' s'' : Instance} (h : s.Holds s') (h' : s'.Holds s'') : s.Holds s'' where
  flow_eq := h'.flow_eq.trans h.flow_eq
  values_eq := h'.values_eq.trans h.values_eq
  inputCount_eq := h'.inputCount_eq.trans h.inputCount_eq
  loops l hl := h.loops l (h'.loops l hl)

/-- Progress that is no loop. -/
theorem setProgress (s : Instance) (component : Nat) {p : Option Progress}
    (hp : ∀ l, p ≠ some (.loop l)) : s.Holds (s.setProgress component p) where
  flow_eq := rfl
  values_eq := rfl
  inputCount_eq := rfl
  loops l hl := (Array.mem_or_eq_of_mem_setIfInBounds hl).resolve_right fun h => hp l h.symm

end Instance.Holds

/-! ## 2. Native variables -/

/-- Whether the activity reads what a write target holds that was computed before. -/
def Activity.readsBack : Activity → Bool
  | readValue | readPropagated | readAssigned => true
  | _ => false

/-- **A failure for want of what a reference leads to.** -/
def FlowError.isStale : FlowError → Bool
  | .invalidInstance | .assignOutOfBounds => true
  | .invalidDestination .slot | .invalidDestination .globalVariable => true
  | .evaluation activity cause => activity.readsBack || cause == .danglingReference
  | _ => false

/-- **The native variables keep to the terms.** What the host makes up itself may be handed in, and
    a refusal is no lost reference. -/
structure Natives.KeepTo (T : Terms) (n : Natives) : Prop where
  offers : n.OffersOnly (Offered T)
  refusals : T.noPlaces → ∀ written id v err, n.refusal? written id v = some err →
    err.isStale = false

/-- What was written to them may be stored. -/
structure Natives.Fair (T : Terms) (h : Heap) (n : Natives) : Prop where
  keepTo : n.KeepTo T
  written : ∀ p ∈ n.written, InstrumentFlow.Fair T h p.2

/-- Native variables that hold what was written keep to all terms. -/
theorem Natives.keepTo_standard (T : Terms) (written : NativeTable) :
    Natives.KeepTo T { written } where
  offers := Natives.offersOnly_standard ⟨fun _ => rfl, fun hb => T.names _ hb rfl⟩ written
  refusals _ _ _ _ _ h := nomatch h

namespace Natives.Fair

variable {T : Terms} {h h' : Heap} {n : Natives}

theorem mono (hn : n.Fair T h) (hle : h.cells.size ≤ h'.cells.size) : n.Fair T h' :=
  ⟨hn.keepTo, fun p hp => (hn.written p hp).mono hle⟩

theorem read (hn : n.Fair T h) (id : UInt32) : InstrumentFlow.Fair T h (n.read id) :=
  hn.keepTo.offers.read hn.written (fun _ hv => hv.fair h) id

theorem write (hn : n.Fair T h) (id : UInt32) {v : Value} (hv : InstrumentFlow.Fair T h v) :
    (n.write id v).Fair T h := by
  refine ⟨⟨hn.keepTo.offers, hn.keepTo.refusals⟩, fun p hp => ?_⟩
  rcases Natives.mem_write hp with rfl | hp
  · exact hv
  · exact hn.written p hp

end Natives.Fair

/-- A write to a native variable does not fail for want of what a reference leads to. -/
theorem Host.isStale_refusal {T : Terms} {h : Heap} {host : Host} (hf : host.natives.Fair T h)
    (hn : T.noPlaces) {id : UInt32} {v : Value} {err : FlowError}
    (he : host.refusal? id v = some err) : err.isStale = false := by
  unfold Host.refusal? at he
  split at he
  · exact hf.keepTo.refusals hn _ _ _ _ he
  · rw [← Option.some.inj he]
    rfl

namespace Engine

/-! ## 3. Rest -/

/-- The beginnings of instances and the assignments, the latest first. -/
def chronicle (e : Engine) : List Event := e.journal.filter Event.isStorage

/-- **Nothing comes into storage**; `staying` tells that nobody goes. -/
structure Quiet (staying : Prop) (e e' : Engine) : Prop where
  definition : e'.definition = e.definition
  globals : e'.globals = e.globals
  heap : e'.heap = e.heap
  natives : e'.host.natives = e.host.natives
  breakdown : e'.breakdown = e.breakdown
  chronicle : e'.chronicle = e.chronicle
  back : ∀ i s', e'.instance? i = some s' → ∃ s, e.instance? i = some s ∧ s.Holds s'
  forth : staying → ∀ i, e.instance? i ≠ none → e'.instance? i ≠ none

namespace Quiet

variable {staying : Prop} {e e' e'' : Engine}

theorem trans (h : Quiet staying e e') (h' : Quiet staying e' e'') : Quiet staying e e'' where
  definition := h'.definition.trans h.definition
  globals := h'.globals.trans h.globals
  heap := h'.heap.trans h.heap
  natives := h'.natives.trans h.natives
  breakdown := h'.breakdown.trans h.breakdown
  chronicle := h'.chronicle.trans h.chronicle
  back i s'' hs'' := by
    obtain ⟨s', hs', hheld'⟩ := h'.back i s'' hs''
    obtain ⟨s, hs, hheld⟩ := h.back i s' hs'
    exact ⟨s, hs, hheld.trans hheld'⟩
  forth hst i hl := h'.forth hst i (h.forth hst i hl)

/-- A change beside storage and instances. -/
theorem beside (hd : e'.definition = e.definition) (hf : e'.forest = e.forest)
    (hg : e'.globals = e.globals) (hh : e'.heap = e.heap)
    (hn : e'.host.natives = e.host.natives) (hb : e'.breakdown = e.breakdown)
    (hj : e'.journal = e.journal) : Quiet staying e e' where
  definition := hd
  globals := hg
  heap := hh
  natives := hn
  breakdown := hb
  chronicle := by unfold Engine.chronicle; rw [hj]
  back i s' hs' := ⟨s', by unfold instance? at hs' ⊢; rwa [← hf], .refl s'⟩
  forth _ i hl := by unfold instance? at hl ⊢; rwa [hf]

theorem refl (e : Engine) : Quiet staying e e := beside rfl rfl rfl rfl rfl rfl rfl

theorem record (e : Engine) {event : Event} (h : event.isStorage = false) :
    Quiet staying e (e.record event) where
  definition := rfl
  globals := rfl
  heap := rfl
  natives := rfl
  breakdown := rfl
  chronicle := List.filter_cons_of_neg (by simp [h])
  back i s' hs' := ⟨s', hs', .refl s'⟩
  forth _ _ hl := hl

theorem modifyInstance (e : Engine) (i : InstanceId) {change : Instance → Instance}
    (hc : ∀ s : Instance, s.Holds (change s)) : Quiet staying e (e.modifyInstance i change) := by
  refine ⟨rfl, rfl, rfl, rfl, rfl, rfl, fun j s' hs' => ?_, fun _ j hl => ?_⟩
  · rw [instance?_modifyInstance] at hs'
    split at hs'
    · next hj =>
      obtain ⟨s, hs, rfl⟩ := Option.map_eq_some_iff.mp hs'
      exact ⟨s, hj ▸ hs, hc s⟩
    · exact ⟨s', hs', .refl s'⟩
  · rw [instance?_modifyInstance]
    split
    · next hj => exact fun hn => hl (hj ▸ Option.map_eq_none_iff.mp hn)
    · exact hl

theorem weaken (h : Quiet True e e') : Quiet staying e e' :=
  { h with forth := fun _ => h.forth trivial }

end Quiet

/-! ## 4. Deposits -/

/-- **The value is a write target**, and where the host does not hand it in it leads somewhere. -/
structure Leads (T : Terms) (e : Engine) (i : InstanceId) (v : Value) : Prop where
  assignable : v.isAssignable = true
  points : T.barred v → Points e.scope i e.heap v

/-- **One deposit** under the terms `T`; `staying` tells that nobody goes. -/
inductive Deposit (T : Terms) (staying : Prop) (e : Engine) : Engine → Prop
  | rest {e' : Engine} (h : Quiet staying e e') : Deposit T staying e e'
  /-- Values are computed or handed in. -/
  | aside (stack : Expression.Stack) {heap : Heap} (hg : e.heap.Grown T heap) :
      Deposit T staying e { e with stack, heap }
  /-- Something has no end. -/
  | breakDown (b : Breakdown) (hb : b = .endlessArray → e.heap.Endless) :
      Deposit T staying e (e.breakDown b)
  /-- The native variables change. -/
  | native {host : Host} (hn : host.natives.Fair T e.heap) :
      Deposit T staying e { e with host }
  /-- A value comes into an input, along a connection or from the host, or an input is emptied. -/
  | feed {i : InstanceId} {slot : Nat} {v : Value} {s : Instance} (hs : e.instance? i = some s)
      (hn : slot < s.inputCount) (hv : Fair T e.heap v) :
      Deposit T staying e (e.writeSlot i slot v)
  /-- The host writes a global variable. -/
  | setGlobal {index : Nat} {v : Value} (hn : ¬ T.noGlobals) (hv : Fair T e.heap v) :
      Deposit T staying e (e.writeGlobal index v)
  /-- A slot is assigned, a local variable where the host does not hand in the write target. -/
  | assignSlot {i : InstanceId} {slot : Nat} {prior v : Value} {s : Instance}
      (hs : e.instance? i = some s) (hp : s.values[slot]? = some prior)
      (hn : T.barred (.slot i slot) → s.inputCount ≤ slot) (hk : e.breakdown = none → prior.Replaces v)
      (hv : Fair T e.heap v) :
      Deposit T staying e ((e.noteAssigned (.slot i slot) v).writeSlot i slot v)
  | assignGlobal {index : Nat} {prior v : Value} (hp : e.globals[index]? = some prior)
      (hk : e.breakdown = none → prior.Replaces v) (hv : Fair T e.heap v) :
      Deposit T staying e ((e.noteAssigned (.global index) v).writeGlobal index v)
  | assignElement {a : ArrayId} {index : Nat} {prior v : Value}
      (hp : (e.heap.elements a)[index]? = some prior) (hv : Fair T e.heap v) :
      Deposit T staying e ((e.noteAssigned (.element a index) v).writeElement a index v)
  /-- A loop begins or goes on. -/
  | loop {i : InstanceId} {component : Nat} {l : LoopProgress}
      (hl : Leads T e i l.destination) :
      Deposit T staying e (e.setProgress i component (some (.loop l)))
  /-- An instance begins. -/
  | begin {flow : Nat} {f : Flow} {parent : Option (InstanceId × Nat)} {isAction : Bool}
      (hs : e.forest.Sound) (hf : e.definition.flows[flow]? = some f)
      (hp : ∀ p, parent = some p → e.forest.contains p.1 = true) (ha : isAction = parent.isSome) :
      Deposit T staying e (e.begun flow f parent isAction)

/-- Deposits in a row. -/
abbrev Deposits (T : Terms) (staying : Prop) : Engine → Engine → Prop :=
  Relation.ReflTransGen (Deposit T staying)

section

variable {T : Terms} {staying : Prop} {e e' : Engine}

theorem Quiet.deposits (h : Quiet staying e e') : Deposits T staying e e' := .single (.rest h)

/-- That nobody goes need not be told. -/
theorem Deposits.weaken (h : Deposits T True e e') : Deposits T staying e e' := by
  refine Relation.ReflTransGen.mono (fun e e' h => ?_) _ _ h
  cases h with
  | rest h => exact .rest h.weaken
  | aside stack hg => exact .aside stack hg
  | breakDown b hb => exact .breakDown b hb
  | native hn => exact .native hn
  | feed hs hn hv => exact .feed hs hn hv
  | setGlobal hn hv => exact .setGlobal hn hv
  | assignSlot hs hp hn hk hv => exact .assignSlot hs hp hn hk hv
  | assignGlobal hp hk hv => exact .assignGlobal hp hk hv
  | assignElement hp hv => exact .assignElement hp hv
  | loop hl => exact .loop hl
  | begin hs hf hp ha => exact .begin hs hf hp ha

/-! ## 5. What stays -/

/-- **What was there before is still there**, but for instances that go. -/
structure Spans (staying : Prop) (e e' : Engine) : Prop where
  definition : e'.definition = e.definition
  globals : e'.globals.size = e.globals.size
  cells : e.heap.cells.size ≤ e'.heap.cells.size
  elements : ∀ a, (e.heap.elements a).size ≤ (e'.heap.elements a).size
  shape : ∀ i s s', e.instance? i = some s → e'.instance? i = some s' →
    s'.inputCount = s.inputCount ∧ s'.values.size = s.values.size
  forth : staying → ∀ i, e.instance? i ≠ none → e'.instance? i ≠ none

/-- Nothing but the instances changes. -/
theorem spans_of_instances (hd : e'.definition = e.definition) (hg : e'.globals = e.globals)
    (hh : e'.heap = e.heap)
    (hs : ∀ i s s', e.instance? i = some s → e'.instance? i = some s' →
      s'.inputCount = s.inputCount ∧ s'.values.size = s.values.size)
    (hf : staying → ∀ i, e.instance? i ≠ none → e'.instance? i ≠ none) : Spans staying e e' :=
  ⟨hd, congrArg Array.size hg, Nat.le_of_eq (by rw [hh]), fun a => Nat.le_of_eq (by rw [hh]), hs,
    hf⟩

/-- The instances stay as they are. -/
theorem spans_of_forest (hd : e'.definition = e.definition) (hf : e'.forest = e.forest)
    (hg : e'.globals.size = e.globals.size) (hc : e.heap.cells.size ≤ e'.heap.cells.size)
    (he : ∀ a, (e.heap.elements a).size ≤ (e'.heap.elements a).size) : Spans staying e e' where
  definition := hd
  globals := hg
  cells := hc
  elements := he
  shape i s s' hs hs' := by
    unfold instance? at hs hs'
    rw [hf, hs] at hs'
    cases hs'
    exact ⟨rfl, rfl⟩
  forth _ i hl := by unfold instance? at hl ⊢; rwa [hf]

theorem spans_modifyInstance (e : Engine) (i : InstanceId) {change : Instance → Instance}
    (hc : ∀ s, (change s).inputCount = s.inputCount ∧ (change s).values.size = s.values.size) :
    Spans staying e (e.modifyInstance i change) := by
  refine spans_of_instances rfl rfl rfl (fun j s s' hs hs' => ?_) fun _ j hl => ?_
  · rw [instance?_modifyInstance] at hs'
    split at hs'
    · next hj =>
      rw [← hj, hs] at hs'
      cases hs'
      exact hc s
    · rw [hs] at hs'
      cases hs'
      exact ⟨rfl, rfl⟩
  · rw [instance?_modifyInstance]
    split
    · next hj => exact fun hn => hl (hj ▸ Option.map_eq_none_iff.mp hn)
    · exact hl

theorem spans_writeSlot (e : Engine) (i : InstanceId) (slot : Nat) (v : Value) :
    Spans staying e (e.writeSlot i slot v) := by
  have h : Spans staying e (e.modifyInstance i (·.setValue slot v)) :=
    spans_modifyInstance e i fun s => ⟨rfl, Array.size_setIfInBounds⟩
  exact ⟨h.definition, h.globals, h.cells, h.elements, h.shape, h.forth⟩

theorem Quiet.spans (h : Quiet staying e e') : Spans staying e e' := by
  refine spans_of_instances h.definition h.globals h.heap (fun i s s' hs hs' => ?_) h.forth
  obtain ⟨t, ht, hheld⟩ := h.back i s' hs'
  rw [hs] at ht
  cases ht
  exact ⟨hheld.inputCount_eq, congrArg Array.size hheld.values_eq⟩

/-- The variables of an instance that begins may be stored, and so may what stands in their
    arrays. -/
theorem freshInstance_fair (flow : Nat) (f : Flow) (parent : Option (InstanceId × Nat))
    (isAction : Bool) (h : Heap) :
    h.Grown T (freshInstance flow f parent isAction h).2
      ∧ ∀ v ∈ (freshInstance flow f parent isAction h).1.values,
        Fair T (freshInstance flow f parent isAction h).2 v := by
  obtain ⟨hg, hvs⟩ := Literal.materializeList_fair (T := T) f.locals h
  refine ⟨hg, fun v hv => ?_⟩
  rcases List.mem_append.mp (List.mem_toArray.mp hv) with hv | hv
  · rw [List.eq_of_mem_replicate hv]
    exact fair_of_bare ⟨rfl, rfl⟩
  · exact hvs v hv

theorem spans_begun {flow : Nat} {f : Flow} {parent : Option (InstanceId × Nat)} {isAction : Bool}
    (hs : e.forest.Sound) (hp : ∀ p, parent = some p → e.forest.contains p.1 = true)
    (ha : isAction = parent.isSome) : Spans staying e (e.begun flow f parent isAction) := by
  have hg : e.heap.Grown lawless (e.begun flow f parent isAction).heap :=
    (freshInstance_fair flow f parent isAction e.heap).1
  refine ⟨rfl, rfl, hg.size_le, hg.size_elements_le, fun i s s' hi hi' => ?_, fun _ i hl => ?_⟩
  · rcases instance?_begun_cases hs hp ha hi' with ⟨rfl, _⟩ | ⟨_, t, l, ht, rfl⟩
    · rw [nextId_fresh hs.free] at hi
      cases hi
    · rw [hi] at ht
      cases ht
      exact ⟨rfl, rfl⟩
  · obtain ⟨s, hi⟩ := Option.ne_none_iff_exists'.mp hl
    have hrooted := rooted_freshInstance flow f hp ha e.heap
    obtain ⟨s', hs', _⟩ := Forest.get?_insert_of_some hs.free hrooted hi
    exact Option.ne_none_iff_exists'.mpr ⟨s', hs'⟩

theorem Deposit.spans (h : Deposit T staying e e') : Spans staying e e' := by
  cases h with
  | rest h => exact h.spans
  | aside stack hg => exact spans_of_forest rfl rfl rfl hg.size_le hg.size_elements_le
  | breakDown b hb => exact spans_of_forest rfl rfl rfl (Nat.le_refl _) fun _ => Nat.le_refl _
  | native hv => exact spans_of_forest rfl rfl rfl (Nat.le_refl _) fun _ => Nat.le_refl _
  | feed hs hn hv => exact spans_writeSlot e _ _ _
  | setGlobal hn hv =>
    exact spans_of_forest rfl rfl Array.size_setIfInBounds (Nat.le_refl _) fun _ => Nat.le_refl _
  | @assignSlot i slot prior v s hs hp hn hk hv =>
    have hw : Spans staying (e.noteAssigned (.slot i slot) v)
        ((e.noteAssigned (.slot i slot) v).writeSlot i slot v) := spans_writeSlot _ i slot v
    exact ⟨hw.definition, hw.globals, hw.cells, hw.elements, hw.shape, hw.forth⟩
  | assignGlobal hp hk hv =>
    exact spans_of_forest rfl rfl Array.size_setIfInBounds (Nat.le_refl _) fun _ => Nat.le_refl _
  | @assignElement a index prior v hp hv =>
    exact spans_of_forest rfl rfl rfl (Nat.le_of_eq (Heap.size_write e.heap a index v).symm)
      fun b => Nat.le_of_eq (Heap.size_elements_write e.heap a b index v).symm
  | loop hl => exact spans_modifyInstance e _ fun s => ⟨rfl, rfl⟩
  | begin hs hf hp ha => exact spans_begun hs hp ha

/-- **A write target goes on leading somewhere** as long as its instance is there. -/
theorem Spans.points (h : Spans staying e e') {i : InstanceId} (hl : e'.instance? i ≠ none)
    {v : Value} (hv : Points e.scope i e.heap v) : Points e'.scope i e'.heap v := by
  cases v with
  | slot j n =>
    obtain ⟨hj, slots, hslots, hle, hlt⟩ := hv
    obtain ⟨s, hs, rfl⟩ := Option.map_eq_some_iff.mp hslots
    obtain ⟨s', hs'⟩ := Option.ne_none_iff_exists'.mp hl
    obtain ⟨hinputs, hsize⟩ := h.shape i s s' hs hs'
    refine ⟨hj, ⟨s'.values, s'.inputCount⟩, ?_, ?_, ?_⟩
    · show (e'.instance? i).map _ = _
      rw [hs']
      rfl
    · exact hinputs.symm ▸ hle
    · exact hsize.symm ▸ hlt
  | global n => exact Nat.lt_of_lt_of_eq hv h.globals.symm
  | element a n => exact Nat.lt_of_lt_of_le hv (h.elements a)
  | _ => trivial

theorem Spans.leads (h : Spans staying e e') {i : InstanceId} (hl : e'.instance? i ≠ none)
    {v : Value} (hv : Leads T e i v) : Leads T e' i v :=
  ⟨hv.assignable, fun hb => h.points hl (hv.points hb)⟩

/-- **Nobody goes** where that is told. -/
theorem Deposits.live (h : Deposits T True e e') {i : InstanceId} (hl : e.instance? i ≠ none) :
    e'.instance? i ≠ none := by
  induction h with
  | refl => exact hl
  | tail _ h ih => exact h.spans.forth trivial i ih

theorem Deposits.definition (h : Deposits T staying e e') : e'.definition = e.definition := by
  induction h with
  | refl => rfl
  | tail _ h ih => exact h.spans.definition.trans ih

/-- No storage goes. -/
theorem Deposits.cells (h : Deposits T staying e e') :
    e.heap.cells.size ≤ e'.heap.cells.size := by
  induction h with
  | refl => exact Nat.le_refl _
  | tail _ h ih => exact Nat.le_trans ih h.spans.cells

/-- Whatever may be stored may be stored afterwards. -/
theorem Deposits.fair (h : Deposits T staying e e') {v : Value} (hv : Fair T e.heap v) :
    Fair T e'.heap v := hv.mono h.cells

/-- While nobody goes, an instance keeps its slots. -/
theorem Deposits.shape (h : Deposits T True e e') {i : InstanceId} {s : Instance}
    (hs : e.instance? i = some s) : ∃ s', e'.instance? i = some s'
      ∧ s'.inputCount = s.inputCount ∧ s'.values.size = s.values.size := by
  induction h with
  | refl => exact ⟨s, hs, rfl, rfl⟩
  | tail _ h ih =>
    obtain ⟨t, ht, hinputs, hsize⟩ := ih
    have hlive := h.spans.forth trivial i (Option.ne_none_iff_exists'.mpr ⟨t, ht⟩)
    obtain ⟨s', hs'⟩ := Option.ne_none_iff_exists'.mp hlive
    obtain ⟨hinputs', hsize'⟩ := h.spans.shape i t s' ht hs'
    exact ⟨s', hs', hinputs'.trans hinputs, hsize'.trans hsize⟩

theorem Deposits.leads (h : Deposits T True e e') {i : InstanceId} (hl : e.instance? i ≠ none)
    {v : Value} (hv : Leads T e i v) : Leads T e' i v := by
  induction h with
  | refl => exact hv
  | tail hbefore h ih =>
    exact h.spans.leads (h.spans.forth trivial i (Deposits.live hbefore hl)) ih

end

/-! ## 6. Stock -/

/-- **Whatever is stored may be**, the definition is sound, the instances have the slots that their
    flows ask for, and the variables of loops are there. -/
structure Stock (T : Terms) (e : Engine) : Prop where
  valid : e.definition.validate = .ok ()
  shape : ∀ i s, e.instance? i = some s → ∃ f, e.definition.flows[s.flow]? = some f
    ∧ s.inputCount = f.inputCount ∧ s.values.size = f.inputCount + f.locals.length
  heap : e.heap.AllFair T
  globals : ∀ v ∈ e.globals, Fair T e.heap v
  natives : e.host.natives.Fair T e.heap
  slots : ∀ i s, e.instance? i = some s → ∀ v ∈ s.values, Fair T e.heap v
  loops : ∀ i s, e.instance? i = some s → ∀ l, some (.loop l) ∈ s.progress →
    Leads T e i l.destination

section

variable {T : Terms} {staying : Prop} {e e' : Engine}

/-- **What a deposit must see to**: everything that is new. -/
theorem Stock.spans (h : e.Stock T) (hs : Spans staying e e') (hheap : e'.heap.AllFair T)
    (hglobals : ∀ v ∈ e'.globals, Fair T e'.heap v)
    (hnatives : e'.host.natives.Fair T e'.heap)
    (hinstances : ∀ i s', e'.instance? i = some s' →
      (∃ s, e.instance? i = some s ∧ s'.flow = s.flow
        ∧ (∀ v ∈ s'.values, v ∈ s.values ∨ Fair T e'.heap v)
        ∧ ∀ l, some (.loop l) ∈ s'.progress → some (.loop l) ∈ s.progress
          ∨ Leads T e' i l.destination)
      ∨ (∃ f, e.definition.flows[s'.flow]? = some f ∧ s'.inputCount = f.inputCount
          ∧ s'.values.size = f.inputCount + f.locals.length)
        ∧ (∀ v ∈ s'.values, Fair T e'.heap v) ∧ ∀ l, some (.loop l) ∉ s'.progress) :
    e'.Stock T where
  valid := hs.definition ▸ h.valid
  shape i s' hs' := by
    rw [hs.definition]
    rcases hinstances i s' hs' with ⟨s, hi, hflow, _, _⟩ | ⟨hshape, _, _⟩
    · obtain ⟨hinputs, hsize⟩ := hs.shape i s s' hi hs'
      rw [hflow, hinputs, hsize]
      exact h.shape i s hi
    · exact hshape
  heap := hheap
  globals := hglobals
  natives := hnatives
  slots i s' hs' v hv := by
    rcases hinstances i s' hs' with ⟨s, hi, _, hvalues, _⟩ | ⟨_, hfair, _⟩
    · rcases hvalues v hv with hv | hv
      · exact (h.slots i s hi v hv).mono hs.cells
      · exact hv
    · exact hfair v hv
  loops i s' hs' l hl := by
    rcases hinstances i s' hs' with ⟨s, hi, _, _, hloops⟩ | ⟨_, _, hnone⟩
    · rcases hloops l hl with hl | hl
      · exact hs.leads (Option.ne_none_iff_exists'.mpr ⟨s', hs'⟩) (h.loops i s hi l hl)
      · exact hl
    · exact absurd hl (hnone l)

/-- The instances stay as they are. -/
theorem Stock.aside (h : e.Stock T) (hf : e'.forest = e.forest) (hs : Spans staying e e')
    (hheap : e'.heap.AllFair T) (hglobals : ∀ v ∈ e'.globals, Fair T e'.heap v)
    (hnatives : e'.host.natives.Fair T e'.heap) : e'.Stock T := by
  refine h.spans hs hheap hglobals hnatives fun i s' hs' => Or.inl ⟨s', ?_, rfl, ?_, ?_⟩
  · unfold instance? at hs' ⊢
    rwa [← hf]
  · exact fun v hv => Or.inl hv
  · exact fun l hl => Or.inl hl

theorem Stock.record (h : e.Stock T) (event : Event) : (e.record event).Stock T := by
  have hspans : Spans False e (e.record event) :=
    spans_of_forest rfl rfl rfl (Nat.le_refl _) fun _ => Nat.le_refl _
  exact h.aside rfl hspans h.heap h.globals h.natives

theorem Stock.writeSlot (h : e.Stock T) (i : InstanceId) (slot : Nat) {v : Value}
    (hv : Fair T e.heap v) : (e.writeSlot i slot v).Stock T := by
  have hspans : Spans False e (e.writeSlot i slot v) := spans_writeSlot e i slot v
  refine h.spans hspans h.heap h.globals h.natives fun j s' hs' => Or.inl ?_
  rw [instance?_writeSlot] at hs'
  split at hs'
  · next hj =>
    obtain ⟨s, hs, rfl⟩ := Option.map_eq_some_iff.mp hs'
    refine ⟨s, hj ▸ hs, rfl, fun w hw => ?_, fun l hl => Or.inl hl⟩
    rcases Array.mem_or_eq_of_mem_setIfInBounds hw with hw | rfl
    · exact Or.inl hw
    · exact Or.inr hv
  · exact ⟨s', hs', rfl, fun w hw => Or.inl hw, fun l hl => Or.inl hl⟩

theorem Stock.writeGlobal (h : e.Stock T) (index : Nat) {v : Value} (hv : Fair T e.heap v) :
    (e.writeGlobal index v).Stock T := by
  have hspans : Spans False e (e.writeGlobal index v) :=
    spans_of_forest rfl rfl Array.size_setIfInBounds (Nat.le_refl _) fun _ => Nat.le_refl _
  refine h.aside rfl hspans h.heap (fun w hw => ?_) h.natives
  rcases Array.mem_or_eq_of_mem_setIfInBounds hw with hw | rfl
  · exact h.globals w hw
  · exact hv

theorem Stock.begun (h : e.Stock T) {flow : Nat} {f : Flow} {parent : Option (InstanceId × Nat)}
    {isAction : Bool} (hs : e.forest.Sound) (hf : e.definition.flows[flow]? = some f)
    (hp : ∀ p, parent = some p → e.forest.contains p.1 = true) (ha : isAction = parent.isSome) :
    (e.begun flow f parent isAction).Stock T := by
  have hspans : Spans False e (e.begun flow f parent isAction) := spans_begun hs hp ha
  obtain ⟨hg, hvs⟩ := freshInstance_fair (T := T) flow f parent isAction e.heap
  refine h.spans hspans (hg.allFair h.heap) (fun v hv => (h.globals v hv).mono hg.size_le)
    (h.natives.mono hg.size_le) fun i s' hs' => ?_
  rcases instance?_begun_cases hs hp ha hs' with ⟨_, rfl⟩ | ⟨_, s, l, hi, rfl⟩
  · refine Or.inr ⟨⟨f, hf, rfl, ?_⟩, hvs, fun l hl => ?_⟩
    · simp [freshInstance, Literal.length_materializeList]
    · cases (Array.mem_replicate.mp hl).2
  · exact Or.inl ⟨s, hi, rfl, fun v hv => Or.inl hv, fun l hl => Or.inl hl⟩

/-- **A deposit keeps the stock.** -/
theorem Deposit.stock (hd : Deposit T staying e e') (h : e.Stock T) : e'.Stock T := by
  cases hd with
  | rest hr =>
    refine h.spans hr.spans (hr.heap ▸ h.heap) ?_ ?_ fun i s' hs' => Or.inl ?_
    · rw [hr.globals, hr.heap]
      exact h.globals
    · rw [hr.natives, hr.heap]
      exact h.natives
    · obtain ⟨s, hs, hheld⟩ := hr.back i s' hs'
      refine ⟨s, hs, hheld.flow_eq, fun v hv => Or.inl (hheld.values_eq ▸ hv), fun l hl => ?_⟩
      exact Or.inl (hheld.loops l hl)
  | aside stack hg =>
    have hdeposit : Deposit T staying e _ := .aside stack hg
    have hspans := hdeposit.spans
    exact h.aside rfl hspans (hg.allFair h.heap) (fun v hv => (h.globals v hv).mono hg.size_le)
      (h.natives.mono hg.size_le)
  | breakDown b hb =>
    have hdeposit : Deposit T staying e _ := .breakDown b hb
    have hspans := hdeposit.spans
    exact h.aside rfl hspans h.heap h.globals h.natives
  | native hn =>
    have hdeposit : Deposit T staying e _ := .native hn
    have hspans := hdeposit.spans
    exact h.aside rfl hspans h.heap h.globals hn
  | feed hs hn hv => exact h.writeSlot _ _ hv
  | setGlobal hn hv => exact h.writeGlobal _ hv
  | assignSlot hs hp hn hk hv => exact (h.record _).writeSlot _ _ hv
  | assignGlobal hp hk hv => exact (h.record _).writeGlobal _ hv
  | @assignElement a index prior v hp hv =>
    have hle : e.heap.cells.size ≤ (e.heap.write a index v).cells.size :=
      Nat.le_of_eq (Heap.size_write ..).symm
    have hdeposit : Deposit T staying e _ := .assignElement hp hv
    have hspans := hdeposit.spans
    exact h.aside rfl hspans (h.heap.write a index hv)
      (fun w hw => (h.globals w hw).mono hle) (h.natives.mono hle)
  | @loop i component l hl =>
    have hdeposit : Deposit T staying e (e.setProgress i component (some (.loop l))) := .loop hl
    have hspans := hdeposit.spans
    refine h.spans hspans h.heap h.globals h.natives fun j s' hs' => Or.inl ?_
    rw [instance?_setProgress] at hs'
    split at hs'
    · next hj =>
      subst hj
      obtain ⟨s, hs, rfl⟩ := Option.map_eq_some_iff.mp hs'
      refine ⟨s, hs, rfl, fun v hv => Or.inl hv, fun l' hl' => ?_⟩
      refine (Array.mem_or_eq_of_mem_setIfInBounds hl').imp id fun he => ?_
      cases he
      have hlive : (e.setProgress j component (some (.loop l))).instance? j ≠ none := by
        rw [instance?_setProgress, if_pos rfl, hs]
        exact Option.some_ne_none _
      exact hspans.leads hlive hl
    · exact ⟨s', hs', rfl, fun v hv => Or.inl hv, fun l' hl' => Or.inl hl'⟩
  | begin hs hf hp ha => exact h.begun hs hf hp ha

theorem Deposits.stock (hd : Deposits T staying e e') (h : e.Stock T) : e'.Stock T := by
  induction hd with
  | refl => exact h
  | tail _ hd ih => exact hd.stock ih

/-- **What expressions can read may be stored.** -/
theorem Stock.footing (h : e.Stock T) (i : InstanceId) (iterators : List Int32) :
    Expression.Footing T ⟨e.scope, i, iterators⟩ e.heap where
  scope := by
    refine ⟨fun j slots hs v hv => ?_, h.globals, fun id => ?_⟩
    · obtain ⟨s, hj, rfl⟩ := Option.map_eq_some_iff.mp hs
      exact h.slots j s hj v hv
    · show Fair T e.heap (e.host.native id)
      unfold Host.native
      split
      · exact h.natives.read id
      · exact fair_of_bare ⟨rfl, rfl⟩
  heap := h.heap

end

end Engine

end InstrumentFlow
