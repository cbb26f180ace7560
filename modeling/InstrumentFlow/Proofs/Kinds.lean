import InstrumentFlow.Bytecode.Assembler
import InstrumentFlow.Proofs.Storage.Runs

/-!
# Kinds of variables

A variable that starts out as a number or a text stays one of that kind: whatever is assigned to it
is turned into the kind of what it holds. Inputs keep no kind, as connections write into them what
they bring; but nothing is ever assigned to an input, unless the host hands in a write target that
leads there.

* `Literal.keptKind?` -- the kind that a variable keeps;
* `Conserves`, `Alters` -- the variables of a list keep their kinds, and changes under which they
  do;
* `KeepsKinds` -- all variables keep their kinds;
* `Deposit.keepsKinds`, `Deposits.keepsKinds` -- deposits keep it;
* `flowBegun`, `sparesInputs` -- whether every assignment to a slot went to a local variable, read
  off the journal;
* `Traced` -- the journal knows the flows of all instances, and of no assignment to an input;
* `Deposits.traced` -- deposits keep it;
* `variables_keep_their_kind` -- both in every run;
* `input_assigned` -- what a host can do that hands in a write target.
-/

namespace InstrumentFlow

/-! ## 1. Kinds -/

/-- **The kind that a variable keeps** which starts out with the literal; variables that start out
    otherwise take values of any kind. -/
def Literal.keptKind? : Literal → Option ValueKind
  | int _ => some .integer
  | float _ => some .float
  | double _ => some .double
  | string _ => some .string
  | _ => none

/-- **The variables declared by the literals keep their kinds**; `held` tells what they hold. -/
def Conserves (ls : List Literal) (held : Nat → Option Value) : Prop :=
  ∀ n l k, ls[n]? = some l → l.keptKind? = some k → ∃ v, held n = some v ∧ v.kind = k

/-- Each variable holds what it held, or a value that may replace that. -/
def Alters (held held' : Nat → Option Value) : Prop :=
  ∀ n, held' n = held n
    ∨ ∃ prior v, held n = some prior ∧ held' n = some v ∧ prior.Replaces v

theorem isTyped_of_keptKind? {l : Literal} {v : Value} (h : l.keptKind? = some v.kind) :
    v.isTyped = true := by
  cases v with
  | int _ | float _ | double _ | string _ => rfl
  | _ => cases l <;> cases h

theorem Conserves.alters {ls : List Literal} {held held' : Nat → Option Value}
    (h : Conserves ls held) (ha : Alters held held') : Conserves ls held' := by
  intro n l k hl hk
  obtain ⟨v, hv, rfl⟩ := h n l k hl hk
  rcases ha n with heq | ⟨prior, w, hprior, hw, hreplaces⟩
  · exact ⟨v, heq.trans hv, rfl⟩
  · rw [hv] at hprior
    cases hprior
    exact ⟨w, hw, hreplaces (isTyped_of_keptKind? hk)⟩

/-- A value is replaced by one of its kind. -/
theorem alters_setIfInBounds {vs : Array Value} {index : Nat} {prior v : Value}
    (hp : vs[index]? = some prior) (hr : prior.Replaces v) (position : Nat → Nat) :
    Alters (fun n => vs[position n]?) (fun n => (vs.setIfInBounds index v)[position n]?) := by
  intro n
  by_cases hn : index = position n
  · obtain ⟨hlt, _⟩ := Array.getElem?_eq_some_iff.mp hp
    refine Or.inr ⟨prior, v, ?_, ?_, hr⟩
    · show vs[position n]? = some prior
      rw [← hn, hp]
    · show (vs.setIfInBounds index v)[position n]? = some v
      rw [← hn, Array.getElem?_setIfInBounds_self_of_lt hlt]
  · exact Or.inl (Array.getElem?_setIfInBounds_ne hn)

/-- The value of a literal is of the kind that its variable keeps. -/
theorem Literal.kind_materialize {l : Literal} {k : ValueKind} (hk : l.keptKind? = some k)
    (h : Heap) : (l.materialize h).1.kind = k := by
  cases l with
  | int _ | float _ | double _ | string _ =>
    cases hk
    rfl
  | _ => cases hk

theorem Literal.conserves_materializeList (ls : List Literal) (h : Heap) :
    Conserves ls ((materializeList ls h).1[·]?) := by
  induction ls generalizing h with
  | nil => exact fun n l k hl => nomatch hl
  | cons l ls ih =>
    intro n l' k hl hk
    cases n with
    | zero =>
      cases hl
      exact ⟨_, rfl, kind_materialize hk h⟩
    | succ n => exact ih (l.materialize h).2 n l' k hl hk

/-- The flow of an instance that begins with the handle. -/
def Event.begun? (i : InstanceId) : Event → Option Nat
  | .created j flow => if j = i then some flow else none
  | _ => none

/-- Whether the host writes a global variable. -/
def Move.setsGlobal : Move → Bool
  | .order ⟨.setGlobal _ _, _⟩ => true
  | _ => false

/-- The terms of a host that hands in no write targets that lead to slots, and does whatever else it
    likes. -/
def slotless : Terms where
  barred v := ∃ i n, v = .slot i n
  names := by
    rintro v ⟨i, n, rfl⟩
    nofun
  noArrays := False
  noGlobals := False

/-- The terms of a host that writes no global variables and does whatever else it likes. -/
def freehand : Terms := { lawless with noGlobals := True }

theorem Move.meets_freehand {m : Move} (hm : m.setsGlobal = false) (kept : String → Value) :
    m.Meets freehand kept := by
  refine Move.meets_of_free (fun _ => id) id kept ?_
  rintro index g name rfl
  cases hm

namespace Engine

/-- A host that writes no global variables keeps to those terms. -/
theorem keepsTo_freehand {moves : List Move} (hm : ∀ m ∈ moves, m.setsGlobal = false)
    (e : Engine) : e.KeepsTo freehand moves := by
  induction moves generalizing e with
  | nil => trivial
  | cons m ms ih =>
    exact ⟨m.meets_freehand (hm m List.mem_cons_self) _,
      ih (fun m' hm' => hm m' (List.mem_cons_of_mem m hm')) _⟩

/-! ## 2. All variables -/

/-- **All variables keep their kinds.** -/
structure KeepsKinds (e : Engine) : Prop where
  locals : ∀ i s f, e.instance? i = some s → e.definition.flows[s.flow]? = some f →
    Conserves f.locals s.local?
  globals : Conserves e.definition.globals (e.globals[·]?)

section

variable {T : Terms} {staying : Prop} {e e' : Engine}

/-- **What a deposit must see to**: the kinds of what it writes. -/
theorem KeepsKinds.alters (h : e.KeepsKinds) (hd : e'.definition = e.definition)
    (hg : Alters (e.globals[·]?) (e'.globals[·]?))
    (hl : ∀ i s', e'.instance? i = some s' →
      ∃ s, e.instance? i = some s ∧ s'.flow = s.flow ∧ Alters s.local? s'.local?) :
    e'.KeepsKinds where
  locals i s' f hs' hf := by
    obtain ⟨s, hs, hflow, halters⟩ := hl i s' hs'
    rw [hd, hflow] at hf
    exact (h.locals i s f hs hf).alters halters
  globals := hd ▸ h.globals.alters hg

/-- Nothing is written that keeps a kind. -/
theorem KeepsKinds.of_same (h : e.KeepsKinds) (hd : e'.definition = e.definition)
    (hg : e'.globals = e.globals)
    (hl : ∀ i s', e'.instance? i = some s' →
      ∃ s, e.instance? i = some s ∧ s'.flow = s.flow ∧ s'.local? = s.local?) : e'.KeepsKinds := by
  refine h.alters hd (fun n => Or.inl (by rw [hg])) fun i s' hs' => ?_
  obtain ⟨s, hs, hflow, hlocals⟩ := hl i s' hs'
  exact ⟨s, hs, hflow, fun n => Or.inl (congrFun hlocals n)⟩

theorem keepsKinds_writeSlot (h : e.KeepsKinds) (i : InstanceId) (slot : Nat) {v : Value}
    (ha : ∀ s, e.instance? i = some s → Alters s.local? (s.setValue slot v).local?) :
    (e.writeSlot i slot v).KeepsKinds := by
  refine h.alters rfl (fun n => Or.inl rfl) fun j s' hs' => ?_
  rw [instance?_writeSlot] at hs'
  split at hs'
  · next hj =>
    obtain ⟨s, hs, rfl⟩ := Option.map_eq_some_iff.mp hs'
    exact ⟨s, hj ▸ hs, rfl, ha s hs⟩
  · exact ⟨s', hs', rfl, fun n => Or.inl rfl⟩

/-- With its progress an instance changes neither its flow nor its variables. -/
theorem kept_setProgress {i j : InstanceId} {component : Nat} {p : Option Progress}
    {s' : Instance} (hs' : (e.setProgress i component p).instance? j = some s') :
    ∃ s, e.instance? j = some s ∧ s'.flow = s.flow ∧ s'.local? = s.local? := by
  rw [instance?_setProgress] at hs'
  split at hs'
  · next hj =>
    obtain ⟨s, hs, rfl⟩ := Option.map_eq_some_iff.mp hs'
    exact ⟨s, hj ▸ hs, rfl, rfl⟩
  · exact ⟨s', hs', rfl, rfl⟩

theorem KeepsKinds.begun (h : e.KeepsKinds) {flow : Nat} {f : Flow}
    {parent : Option (InstanceId × Nat)} {isAction : Bool} (hs : e.forest.Sound)
    (hf : e.definition.flows[flow]? = some f)
    (hp : ∀ p, parent = some p → e.forest.contains p.1 = true) (ha : isAction = parent.isSome) :
    (e.begun flow f parent isAction).KeepsKinds where
  globals := h.globals
  locals i s' f' hs' hf' := by
    rcases instance?_begun_cases hs hp ha hs' with ⟨_, rfl⟩ | ⟨_, s, l, hi, rfl⟩
    · have hflow : e.definition.flows[flow]? = some f' := hf'
      rw [hf] at hflow
      cases hflow
      intro n l k hl hk
      obtain ⟨v, hv, hkind⟩ := Literal.conserves_materializeList f.locals e.heap n l k hl hk
      refine ⟨v, ?_, hkind⟩
      show (List.toArray (List.replicate f.inputCount Value.undefined ++ _))[f.inputCount + n]? = _
      rw [List.getElem?_toArray, List.getElem?_append_right (by simp)]
      simpa using hv
    · exact h.locals i s f' hi hf'

/-! ## 3. Deposits -/

/-- Before a deposit nothing had broken down if nothing has afterwards. -/
theorem Deposit.unbroken (h : Deposit T staying e e') (hb : e'.breakdown = none) :
    e.breakdown = none := by
  cases h with
  | rest h => exact h.breakdown ▸ hb
  | breakDown b _ =>
    unfold Engine.breakDown at hb
    cases he : e.breakdown with
    | none => rfl
    | some b' =>
      rw [he] at hb
      cases hb
  | _ => exact hb

/-- **A deposit keeps the kinds**, where the host writes no global variables. -/
theorem Deposit.keepsKinds (h : Deposit T staying e e') (hn : T.noGlobals)
    (hb : e'.breakdown = none) (hk : e.KeepsKinds) : e'.KeepsKinds := by
  have hunbroken := h.unbroken hb
  have hsame (i : InstanceId) (s : Instance) (hs : e.instance? i = some s) :
      ∃ t, e.instance? i = some t ∧ s.flow = t.flow ∧ s.local? = t.local? := ⟨s, hs, rfl, rfl⟩
  cases h with
  | rest h =>
    refine hk.of_same h.definition h.globals fun i s' hs' => ?_
    obtain ⟨s, hs, hheld⟩ := h.back i s' hs'
    refine ⟨s, hs, hheld.flow_eq, funext fun n => ?_⟩
    unfold Instance.local?
    rw [hheld.values_eq, hheld.inputCount_eq]
  | aside stack hg => exact hk.of_same rfl rfl hsame
  | breakDown b hb' => exact hk.of_same rfl rfl hsame
  | native hv => exact hk.of_same rfl rfl hsame
  | @feed i slot v s hs hlt hv =>
    refine keepsKinds_writeSlot hk i slot fun t ht n => Or.inl ?_
    rw [hs] at ht
    cases ht
    -- inputs lie before all local variables
    have hne : slot ≠ s.inputCount + n := by omega
    exact Array.getElem?_setIfInBounds_ne hne
  | setGlobal hset hv => exact absurd hn hset
  | @assignSlot i slot prior v s hs hp _ hr hv =>
    have hnoted : (e.noteAssigned (.slot i slot) v).KeepsKinds := hk.of_same rfl rfl hsame
    refine keepsKinds_writeSlot hnoted i slot fun t ht => ?_
    have hst : e.instance? i = some t := ht
    rw [hs] at hst
    cases hst
    exact alters_setIfInBounds hp (hr hunbroken) (s.inputCount + ·)
  | assignGlobal hp hr hv =>
    refine hk.alters rfl (alters_setIfInBounds hp (hr hunbroken) id) fun i s' hs' => ?_
    exact ⟨s', hs', rfl, fun n => Or.inl rfl⟩
  | assignElement hp hv => exact hk.of_same rfl rfl hsame
  | @loop i component l hl =>
    exact hk.of_same rfl rfl fun j s' hs' => kept_setProgress hs'
  | begin hs hf hp ha => exact hk.begun hs hf hp ha

theorem Deposits.keepsKinds (h : Deposits T staying e e') (hn : T.noGlobals)
    (hk : e.KeepsKinds) (hb : e'.breakdown = none) : e'.KeepsKinds := by
  -- a breakdown stays, so there was none at any moment of the way
  induction h with
  | refl => exact hk
  | tail _ h ih => exact h.keepsKinds hn hb (ih (h.unbroken hb))

theorem keepsKinds_built (d : Definition) (config : Config) (dispatcher : Dispatcher)
    (host : Host) : (built d config dispatcher host).KeepsKinds where
  locals i s f hs := by
    rw [instance?_built d config dispatcher host] at hs
    cases hs
  globals n l k hl hk := by
    obtain ⟨v, hv, hkind⟩ := Literal.conserves_materializeList d.globals {} n l k hl hk
    refine ⟨v, ?_, hkind⟩
    show (List.toArray _)[n]? = _
    rw [List.getElem?_toArray]
    exact hv

end

/-! ## 4. Assignments in the journal -/

/-- **The flow of the latest instance with the handle**, read off a journal. -/
def flowBegun (events : List Event) (i : InstanceId) : Option Nat :=
  events.findSome? (Event.begun? i)

theorem flowBegun_created_self (i : InstanceId) (flow : Nat) {found : Reading}
    (events : List Event) :
    flowBegun (@Event.created i flow found :: events) i = some flow := by
  unfold flowBegun
  rw [List.findSome?_cons]
  simp only [Event.begun?, if_pos]

theorem flowBegun_created_ne {i j : InstanceId} (h : j ≠ i) (flow : Nat) {found : Reading}
    (events : List Event) :
    flowBegun (@Event.created j flow found :: events) i = flowBegun events i := by
  unfold flowBegun
  rw [List.findSome?_cons]
  simp only [Event.begun?, if_neg h]

/-- **Whether every assignment to a slot went to a local variable**, read off a journal. -/
def sparesInputs (d : Definition) : List Event → Bool
  | [] => true
  | .assigned (.slot i slot) _ _ :: earlier =>
    ((flowBegun earlier i).bind (d.flows[·]?)).any (·.inputCount ≤ slot) && sparesInputs d earlier
  | _ :: earlier => sparesInputs d earlier

/-- Only beginnings and assignments count. -/
theorem flowBegun_filter (events : List Event) (i : InstanceId) :
    flowBegun (events.filter Event.isStorage) i = flowBegun events i := by
  unfold flowBegun
  induction events with
  | nil => rfl
  | cons event events ih =>
    cases hs : event.isStorage with
    | true => rw [List.filter_cons_of_pos hs, List.findSome?_cons, List.findSome?_cons, ih]
    | false =>
      have hnone : Event.begun? i event = none := by
        cases event with
        | created j flow => cases hs
        | _ => rfl
      rw [List.filter_cons_of_neg (by rw [hs]; nofun), List.findSome?_cons, hnone, ih]

theorem sparesInputs_filter (d : Definition) (events : List Event) :
    sparesInputs d (events.filter Event.isStorage) = sparesInputs d events := by
  induction events with
  | nil => rfl
  | cons event events ih =>
    cases event with
    | assigned destination v h =>
      rw [List.filter_cons_of_pos rfl]
      cases destination with
      | slot i n =>
        unfold sparesInputs
        rw [flowBegun_filter, ih]
      | _ => exact ih
    | created i flow =>
      rw [List.filter_cons_of_pos rfl]
      exact ih
    | _ =>
      rw [List.filter_cons_of_neg (by simp [Event.isStorage])]
      exact ih

/-- **The journal knows the flows of all instances, and of no assignment to an input.** -/
structure Traced (e : Engine) : Prop where
  flows : ∀ i s, e.instance? i = some s → flowBegun e.chronicle i = some s.flow
  spared : sparesInputs e.definition e.chronicle = true

section

variable {T : Terms} {staying : Prop} {e e' : Engine}

/-- The chronicle and the flows of the instances stay as they are. -/
theorem Traced.of_same (h : e.Traced) (hd : e'.definition = e.definition)
    (hc : e'.chronicle = e.chronicle)
    (hl : ∀ i s', e'.instance? i = some s' → ∃ s, e.instance? i = some s ∧ s'.flow = s.flow) :
    e'.Traced where
  flows i s' hs' := by
    obtain ⟨s, hs, hflow⟩ := hl i s' hs'
    rw [hc, hflow]
    exact h.flows i s hs
  spared := by
    rw [hd, hc]
    exact h.spared

/-- A value goes to a local variable, to a global one or to an element. -/
theorem Traced.noteAssigned (h : e.Traced) {destination : Value} (v : Value)
    (hd : ∀ i slot, destination = .slot i slot → ∃ s f, e.instance? i = some s
      ∧ e.definition.flows[s.flow]? = some f ∧ f.inputCount ≤ slot) :
    (e.noteAssigned destination v).Traced where
  flows := h.flows
  spared := by
    show sparesInputs e.definition (.assigned destination v e.heap :: e.chronicle) = true
    cases destination with
    | slot i slot =>
      obtain ⟨s, f, hs, hf, hle⟩ := hd i slot rfl
      unfold sparesInputs
      rw [h.spared, h.flows i s hs, Option.bind_some, hf, Option.any_some, Bool.and_true]
      exact decide_eq_true hle
    | _ => exact h.spared

theorem Traced.writeSlot (h : e.Traced) (i : InstanceId) (slot : Nat) (v : Value) :
    (e.writeSlot i slot v).Traced := by
  refine h.of_same rfl rfl fun j s' hs' => ?_
  rw [instance?_writeSlot] at hs'
  split at hs'
  · next hj =>
    obtain ⟨s, hs, rfl⟩ := Option.map_eq_some_iff.mp hs'
    exact ⟨s, hj ▸ hs, rfl⟩
  · exact ⟨s', hs', rfl⟩

theorem Traced.begun (h : e.Traced) {flow : Nat} {f : Flow}
    {parent : Option (InstanceId × Nat)} {isAction : Bool} (hs : e.forest.Sound)
    (hp : ∀ p, parent = some p → e.forest.contains p.1 = true) (ha : isAction = parent.isSome) :
    (e.begun flow f parent isAction).Traced where
  spared := h.spared
  flows i s' hs' := by
    show flowBegun (@Event.created (e.nextId flow f parent isAction) flow _ :: e.chronicle) i = _
    rcases instance?_begun_cases hs hp ha hs' with ⟨rfl, rfl⟩ | ⟨hne, s, l, hi, rfl⟩
    · exact flowBegun_created_self _ flow _
    · rw [flowBegun_created_ne (Ne.symm hne)]
      exact h.flows i s hi

/-- **A deposit leaves no trace of an assignment to an input**, where the host hands in no slots. -/
theorem Deposit.traced (h : Deposit T staying e e') (hn : ∀ i n, T.barred (.slot i n))
    (hs : e.Stock T) (ht : e.Traced) : e'.Traced := by
  have hsame (i : InstanceId) (s : Instance) (hi : e.instance? i = some s) :
      ∃ t, e.instance? i = some t ∧ s.flow = t.flow := ⟨s, hi, rfl⟩
  cases h with
  | rest h =>
    refine ht.of_same h.definition h.chronicle fun i s' hs' => ?_
    obtain ⟨s, hi, hheld⟩ := h.back i s' hs'
    exact ⟨s, hi, hheld.flow_eq⟩
  | aside stack hg => exact ht.of_same rfl rfl hsame
  | breakDown b hb => exact ht.of_same rfl rfl hsame
  | native hv => exact ht.of_same rfl rfl hsame
  | feed _ _ _ => exact ht.writeSlot _ _ _
  | setGlobal _ _ => exact ht.of_same rfl rfl hsame
  | @assignSlot i slot prior v s hi _ hlocal _ _ =>
    -- the instance is alive, so the journal still knows its flow, and with it the inputs
    refine (ht.noteAssigned v fun j n hj => ?_).writeSlot i slot v
    cases hj
    obtain ⟨f, hf, hinputs, _⟩ := hs.shape i s hi
    exact ⟨s, f, hi, hf, hinputs ▸ hlocal (hn i slot)⟩
  | @assignGlobal index prior v _ _ _ =>
    have hnoted : (e.noteAssigned (.global index) v).Traced :=
      ht.noteAssigned v fun _ _ hj => nomatch hj
    exact hnoted.of_same rfl rfl fun i s' hs' => ⟨s', hs', rfl⟩
  | @assignElement a index prior v _ _ =>
    have hnoted : (e.noteAssigned (.element a index) v).Traced :=
      ht.noteAssigned v fun _ _ hj => nomatch hj
    exact hnoted.of_same rfl rfl fun i s' hs' => ⟨s', hs', rfl⟩
  | @loop i component l _ =>
    refine ht.of_same rfl rfl fun j s' hs' => ?_
    obtain ⟨s, hi, hflow, _⟩ := kept_setProgress hs'
    exact ⟨s, hi, hflow⟩
  | begin hf _ hp ha => exact ht.begun hf hp ha

theorem Deposits.traced (h : Deposits T staying e e') (hn : ∀ i n, T.barred (.slot i n))
    (hs : e.Stock T) (ht : e.Traced) : e'.Traced := by
  induction h with
  | refl => exact ht
  | tail hd h ih => exact h.traced hn (Deposits.stock hd hs) ih

theorem traced_built (d : Definition) (config : Config) (dispatcher : Dispatcher) (host : Host) :
    (built d config dispatcher host).Traced where
  flows i s hs := by
    rw [instance?_built d config dispatcher host] at hs
    cases hs
  spared := rfl

end

/-! ## 5. Every run -/

/-- **Variables keep their kinds, and inputs are not assigned.** In every run of flows without
    components of the host, between calls and between the steps of a tick:

    * if the host writes no global variables and nothing has broken down, each local variable of
      each live instance and each global variable that was declared as a number or a text holds a
      value of that same kind;
    * if neither the orders of the host nor its native variables hand in a write target that leads
      to a slot, no assignment ever went to an input. -/
theorem variables_keep_their_kind {d : Definition} {config : Config} {dispatcher : Dispatcher}
    {host : Host} {e₀ : Engine} (hb : build d config dispatcher host = .ok e₀) (hh : d.Hostless)
    (moves : List Move) (count : Nat) (allowance : Option Nat) (report : TickReport) {e : Engine}
    (he : e = (runTasks handler count allowance report (e₀.after moves)).2) :
    ((∀ m ∈ moves, m.setsGlobal = false) → e.breakdown = none → e.KeepsKinds)
    ∧ (host.Meets slotless → e₀.KeepsTo slotless moves →
        sparesInputs d e.journal = true) := by
  obtain ⟨_, hbuilt⟩ := build_eq_ok_iff.mp hb
  refine ⟨fun hm hunbroken => ?_, fun hn hm => ?_⟩
  · have hn : host.Meets freehand := Host.meets_of_free (fun _ => id) id host
    obtain ⟨_, hdeposits⟩ :=
      deposits_between hb hh hn moves (keepsTo_freehand hm e₀) count allowance report
    rw [← he] at hdeposits
    have hk₀ : e₀.KeepsKinds := hbuilt ▸ keepsKinds_built d config dispatcher host
    exact hdeposits.keepsKinds trivial hk₀ hunbroken
  · obtain ⟨hs₀, hdeposits⟩ := deposits_between hb hh hn moves hm count allowance report
    rw [← he] at hdeposits
    have ht₀ : e₀.Traced := hbuilt ▸ traced_built d config dispatcher host
    have hspared := (hdeposits.traced (fun i n => ⟨i, n, rfl⟩) hs₀ ht₀).spared
    have hd₀ : e₀.definition = d := by rw [hbuilt]; rfl
    rwa [hdeposits.definition, hd₀, chronicle, sparesInputs_filter] at hspared

/-- A number is assigned to a text. -/
def textDefinition : Definition :=
  { constants := [.undefined, .null, .int 5]
    flows :=
      [{ name := "main"
         locals := [.string ""]
         components :=
           [{ kind := .setVariable
              properties :=
                [⟨(({} : Bytecode.Assembler).local 0).finish⟩,
                 ⟨(({} : Bytecode.Assembler).constant 2).finish⟩] }] }] }

/-- The flow is started, and the number is assigned. -/
def textMoves : List Move := [.order ⟨.startFlow 0, none⟩, .tick none]

/-- The number has been assigned. -/
def textAssigned : Engine :=
  (runTasks handler 0 none {} ((built textDefinition {} .absent {}).after textMoves)).2

/-- The text is still a text, and no input was assigned. -/
theorem variables_keep_their_kind_text :
    build textDefinition {} .absent {} = .ok (built textDefinition {} .absent {})
    ∧ textDefinition.Hostless
    ∧ (∀ m ∈ textMoves, m.setsGlobal = false)
    ∧ textAssigned.breakdown = none
    ∧ Host.Meets slotless {}
    ∧ (built textDefinition {} .absent {}).KeepsTo slotless textMoves
    ∧ (∃ s, textAssigned.instance? ⟨0, 0⟩ = some s
        ∧ ∃ v, s.local? 0 = some v ∧ v.kind = .string)
    ∧ sparesInputs textDefinition textAssigned.journal = true := by
  have hb : build textDefinition {} .absent {} = .ok (built textDefinition {} .absent {}) := rfl
  have hh : textDefinition.Hostless := by decide +kernel
  have hm : ∀ m ∈ textMoves, m.setsGlobal = false := by
    simp [textMoves, Move.setsGlobal]
  have hunbroken : textAssigned.breakdown = none := by decide +kernel
  have hn : Host.Meets slotless {} := Host.meets_empty slotless
  have hkeeps : (built textDefinition {} .absent {}).KeepsTo slotless textMoves :=
    ⟨trivial, trivial, trivial⟩
  have hflow : (textAssigned.instance? ⟨0, 0⟩).map (·.flow) = some 0 := by decide +kernel
  obtain ⟨s, hs, hzero⟩ := Option.map_eq_some_iff.mp hflow
  obtain ⟨hkinds, hspared⟩ := variables_keep_their_kind hb hh textMoves 0 none {}
    (e := textAssigned) rfl
  have hdefinition : textAssigned.definition.flows[s.flow]? = textDefinition.flows[0]? := by
    rw [hzero]
    rfl
  have hlocals := (hkinds hm hunbroken).locals ⟨0, 0⟩ s _ hs hdefinition
  have hlocal := hlocals 0 (.string "") .string rfl rfl
  exact ⟨hb, hh, hm, hunbroken, hn, hkeeps, ⟨s, hs, hlocal⟩, hspared hn hkeeps⟩

/-- A flow with an input. -/
def inputDefinition : Definition := { flows := [{ name := "main", inputFlags := [0] }] }

/-- The flow is started, and the host assigns to the input by a write target of its own. -/
def inputMoves : List Move :=
  [.order ⟨.startFlow 0, none⟩,
   .order ⟨.assign ⟨0, 0⟩ 0 (.plain (.slot ⟨0, 0⟩ 0)) (.plain (.int 5)), none⟩]

/-- **A host that hands in a write target can assign to an input.** -/
theorem input_assigned :
    build inputDefinition {} .absent {} = .ok (built inputDefinition {} .absent {})
    ∧ inputDefinition.Hostless
    ∧ (∀ m ∈ inputMoves, m.setsGlobal = false)
    ∧ ((built inputDefinition {} .absent {}).after inputMoves).breakdown = none
    ∧ (((built inputDefinition {} .absent {}).after inputMoves).instance? ⟨0, 0⟩).bind
        (·.input? 0) = some (.int 5)
    ∧ sparesInputs inputDefinition
        ((built inputDefinition {} .absent {}).after inputMoves).journal = false := by
  refine ⟨rfl, by decide +kernel, ?_, by decide +kernel, by decide +kernel, by decide +kernel⟩
  simp [inputMoves, Move.setsGlobal]

end Engine

end InstrumentFlow
