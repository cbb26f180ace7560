import InstrumentFlow.Asset.Builder
import InstrumentFlow.Bytecode.Assembler
import InstrumentFlow.Proofs.Engine.Pace
import InstrumentFlow.Proofs.Engine.Run
import InstrumentFlow.Proofs.Expression.Application
import InstrumentFlow.Proofs.Expression.Readers
import InstrumentFlow.Proofs.Validity
import InstrumentFlow.Proofs.Value.Denotation

/-!
# Numbers that builders hand out

A builder answers every literal that it adds with a number, and the assembler writes a stream that
reads under a number. Thirteen bits of the number stand in that stream, so that it reads what was
added under the number only as long as the number has no more.

* `Table`, `Builders`, `Request` -- what is being built, and the requests to its builders;
* `Builders.table_after` -- requests add to the ends of tables and change nothing else;
* `Builders.validate_program` -- what was built is a sound definition;
* `Opened`, `opened_startFlow` -- an instance that begins holds the values of the literals;
* `Table.scan_stream` -- which instructions are in the stream;
* `Loads`, `Opened.loads` -- the first of them brings the value of an entry onto the stack;
* `Reads`, `Opened.reads_iff` -- what the value of the stream is;
* `number_reads` -- **what is read under a number that was handed out**;
* `not_every_number_reads` -- a number under which something else is read.
-/

namespace InstrumentFlow

open Bytecode Expression

/-! ## 1. Builders -/

/-- The tables that literals are added to. -/
inductive Table where
  | constants | globals | locals
  deriving DecidableEq

/-- A definition and its only flow, in the hands of their builders. -/
structure Builders where
  definition : Definition := {}
  flow : Flow

/-- What a builder is asked for. -/
inductive Request where
  /-- One more literal in a table. -/
  | literal (t : Table) (l : Literal)
  /-- One more input with these flags. -/
  | input (flags : UInt8)

/-- The literal that a request adds to a table. -/
def Request.literal? (t : Table) : Request → Option Literal
  | literal t' l => if t' = t then some l else none
  | input _ => none

namespace Builders

/-- Nothing has been asked for yet. -/
def fresh (name : String) : Builders := { flow := .named name }

def table (b : Builders) : Table → List Literal
  | .constants => b.definition.constants
  | .globals => b.definition.globals
  | .locals => b.flow.locals

/-- Adds a literal to a table and hands out its number. -/
def add (b : Builders) (t : Table) (l : Literal) : UInt16 × Builders :=
  match t with
  | .constants =>
    let (number, definition) := b.definition.addConstant l
    (number, { b with definition })
  | .globals =>
    let (number, definition) := b.definition.addGlobal l
    (number, { b with definition })
  | .locals =>
    let (number, flow) := b.flow.addLocal l
    (number, { b with flow })

def perform (b : Builders) : Request → Builders
  | .literal t l => (b.add t l).2
  | .input flags => { b with flow := (b.flow.addInput flags).2 }

/-- What is built after a row of requests. -/
def after (b : Builders) (requests : List Request) : Builders := requests.foldl perform b

/-- The definition as it is built in the end. -/
def program (b : Builders) : Definition := (b.definition.addFlow b.flow).2

/-! ## 2. What requests add -/

section

variable {b : Builders}

/-- **The number of a literal** is its place in the table, as far as sixteen bits go. -/
theorem number_add (t : Table) (l : Literal) :
    (b.add t l).1 = UInt16.ofNat (b.table t).length := by
  cases t <;> simp [add, table, Definition.addConstant, Definition.addGlobal, Flow.addLocal,
    lastIndex]

theorem table_perform (r : Request) (t : Table) :
    (b.perform r).table t = b.table t ++ (r.literal? t).toList := by
  cases r with
  | input flags => cases t <;> exact (List.append_nil _).symm
  | literal t' l => cases t <;> cases t' <;> first | rfl | exact (List.append_nil _).symm

/-- **Requests add to the ends of tables** and change nothing else there. -/
theorem table_after (requests : List Request) (t : Table) :
    (b.after requests).table t = b.table t ++ requests.filterMap (·.literal? t) := by
  induction requests generalizing b with
  | nil => exact (List.append_nil _).symm
  | cons r requests ih =>
    have hstep : (b.after (r :: requests)).table t
        = (b.perform r).table t ++ requests.filterMap (·.literal? t) := ih
    rw [hstep, table_perform, List.append_assoc, List.filterMap_cons]
    cases r.literal? t <;> rfl

theorem table_add (t : Table) (l : Literal) : (b.add t l).2.table t = b.table t ++ [l] := by
  cases t <;> rfl

/-- What was added stays where it is. -/
theorem getElem?_table_add_after (t : Table) (l : Literal) (later : List Request) :
    (((b.add t l).2.after later).table t)[(b.table t).length]? = some l := by
  rw [table_after, table_add, List.append_assoc, List.getElem?_append_right (Nat.le_refl _),
    Nat.sub_self]
  rfl

/-- A literal is added in the middle of a row of requests. -/
theorem after_add {before : List Request} (t : Table) (l : Literal) (later : List Request) :
    ((b.after before).add t l).2.after later = b.after (before ++ .literal t l :: later) := by
  unfold after
  rw [List.foldl_append]
  rfl

/-- **Neither flows nor components** are there but the flow that is being built. -/
structure Bare (b : Builders) : Prop where
  flows : b.definition.flows = []
  components : b.flow.components = []

theorem Bare.perform (h : b.Bare) : ∀ r : Request, (b.perform r).Bare
  | .literal .constants _ | .literal .globals _ | .literal .locals _ | .input _ =>
    ⟨h.flows, h.components⟩

theorem Bare.after (h : b.Bare) (requests : List Request) : (b.after requests).Bare := by
  induction requests generalizing b with
  | nil => exact h
  | cons r requests ih => exact ih (h.perform r)

theorem bare_fresh (name : String) : (fresh name).Bare := ⟨rfl, rfl⟩

theorem Bare.flows_program (h : b.Bare) : b.program.flows = [b.flow] := by
  show b.definition.flows ++ [b.flow] = _
  rw [h.flows]
  rfl

/-- **What was built is a sound definition**: the first two constants are the reserved ones. -/
theorem validate_program (name : String) (requests : List Request) :
    ((fresh name).after requests).program.validate = .ok () := by
  have hbare := (bare_fresh name).after requests
  have hconstants : ((fresh name).after requests).program.constants
      = .undefined :: .null :: requests.filterMap (·.literal? .constants) :=
    table_after requests .constants
  rw [Definition.validate_eq_ok_iff, hconstants, hbare.flows_program]
  simp [hbare.components, Literal.isUndefined, Literal.isNull]

end

end Builders

/-! ## 3. An instance that begins -/

namespace Literal

/-- The value of a literal is no write target. -/
theorem Denotes.resolve {l : Literal} {h : Heap} {v : Value} (hd : Denotes h l v)
    (scope : Scope) : resolve scope h v = .ok v := by
  cases l with
  | array items =>
    unfold Denotes at hd
    obtain ⟨a, rfl, _⟩ := hd
    rfl
  | _ =>
    unfold Denotes at hd
    subst hd
    rfl

end Literal

namespace Engine

/-- **An instance that has just begun**: the tables of its program are there as values. -/
structure Opened (b : Builders) (e : Engine) (i : InstanceId) : Prop where
  constants : e.definition.constants = b.table .constants
  globals : Literal.DenotesList e.heap (b.table .globals) e.globals.toList
  locals : ∃ s inputs locals, e.instance? i = some s ∧ s.values = (inputs ++ locals).toArray
    ∧ s.inputCount = inputs.length ∧ Literal.DenotesList e.heap (b.table .locals) locals

/-- An instance of a flow that is there begins. -/
theorem create_of_flow {e : Engine} {flow : Nat} {f : Flow}
    (hf : e.definition.flows[flow]? = some f) : create flow none false e
      = .ok (e.nextId flow f none false) (e.arisen flow f none false) := by
  unfold create
  rw [get_bind_apply, hf]
  rfl

section

variable {b : Builders} (hbare : b.Bare) (config : Config) (dispatcher : Dispatcher) (host : Host)
include hbare

/-- **The flow that was built begins**, and the tables of its program are there as values. -/
theorem opened_startFlow : ∃ i e, startFlow 0 (built b.program config dispatcher host) = .ok i e
    ∧ e.Opened b i ∧ e.stack = { capacity := config.stackCapacity } := by
  let e₀ : Engine := { (built b.program config dispatcher host).record .restarted with
    stopped := false, stopRequested := false, lastError := none }
  have hflow : e₀.definition.flows[0]? = some b.flow := by
    show b.program.flows[0]? = _
    rw [hbare.flows_program]
    rfl
  have hpings : e₀.arisen 0 b.flow none false = e₀.begun 0 b.flow none false := by
    unfold arisen
    rw [hbare.components]
    rfl
  refine ⟨_, _, create_of_flow (e := e₀) hflow, ?_, by rw [hpings]; rfl⟩
  rw [hpings]
  have hglobals := Literal.materializeList_denotes b.definition.globals {}
  have hlocals := Literal.materializeList_denotes b.flow.locals e₀.heap
  obtain ⟨hgrown, _⟩ :=
    Literal.materializeList_fair (T := lawless) b.flow.locals e₀.heap
  refine ⟨rfl, ?_, ?_⟩
  · exact hglobals.grown hgrown
  · have hcaller (p : InstanceId × Nat) (hp : none = some p) : e₀.forest.contains p.1 = true :=
      nomatch hp
    have hrooted : e₀.forest.Rooted (freshInstance 0 b.flow none false e₀.heap).1 :=
      rooted_freshInstance 0 b.flow hcaller rfl e₀.heap
    exact ⟨_, List.replicate b.flow.inputCount .undefined, _,
      Forest.get?_insert_self Forest.sound_empty.free hrooted, rfl,
      (List.length_replicate ..).symm, hlocals⟩

end

end Engine

/-! ## 4. Streams that read a table -/

namespace Table

/-- The instruction that reads an entry of a table. -/
def read : Table → UInt16 → Instruction
  | constants, index => .pushConstant index
  | globals, index => .pushGlobal index
  | locals, index => .pushLocal index

/-- The stream that the assembler writes to read an entry of a table. -/
def stream (t : Table) (index : UInt16) : List UInt8 :=
  let a : Assembler := {}
  match t with
  | constants => (a.constant index).finish
  | globals => (a.global index).finish
  | locals => (a.local index).finish

theorem read_ne_stop (t : Table) (index : UInt16) : t.read index ≠ .stop := by
  cases t <;> nofun

/-- **A word keeps thirteen bits** of the index. -/
theorem ofWord_word_read (t : Table) (index : UInt16) :
    Instruction.ofWord (t.read index).word = t.read (index &&& Instruction.operandMask) := by
  have hfits : (index &&& Instruction.operandMask).toNat < 0x2000 := by
    rw [Instruction.toNat_and_operandMask]
    exact Nat.mod_lt _ (by decide)
  have htwice : index &&& Instruction.operandMask &&& Instruction.operandMask
      = index &&& Instruction.operandMask := by rw [UInt16.and_assoc, UInt16.and_self]
  have hword : (t.read index).word = (t.read (index &&& Instruction.operandMask)).word := by
    cases t <;> exact congrArg (_ ||| ·) htwice.symm
  rw [hword]
  exact Instruction.ofWord_word (by cases t <;> exact hfits)

/-- **The instructions in the stream**: the one that reads, and the end. -/
theorem scan_stream (t : Table) (index : UInt16) :
    scan (t.stream index) = [t.read (index &&& Instruction.operandMask), .stop] := by
  have hbytes : t.stream index
      = Instruction.wordBytes (t.read index).word
        ++ Instruction.wordBytes Instruction.stop.word := by
    cases t <;> rfl
  have hend : scan (Instruction.wordBytes Instruction.stop.word) = [.stop] := by decide
  rw [hbytes, Instruction.wordBytes, List.cons_append, List.cons_append, List.nil_append,
    scan_cons, Instruction.wordOfBytes_wordBytes, ofWord_word_read, if_neg (read_ne_stop t _), hend]

end Table

namespace Expression

/-- A stream of one instruction that leaves one value: what that value resolves to. -/
theorem evaluate_single {c : Context} {bytes : List UInt8} {i : Instruction}
    (hscan : scan bytes = [i, .stop]) {w w' : Workspace} {u v : Value}
    (hstep : step c i (w.holding []) = .ok () w') (hvalues : w'.stack.values = [v])
    (hr : resolve c.scope w'.heap v = .ok u) :
    evaluate c bytes w = .ok (u, 4) (w'.holding []) := by
  have hrun : run c bytes (w.holding []) = .ok 4 w' := by
    have hexec : exec c [i, .stop] (w.holding []) = .ok () w' := exec_cons_of_ok hstep [.stop]
    have hend : Instruction.stop ∈ [i, .stop] := List.mem_cons_of_mem i List.mem_cons_self
    rw [run_eq, hscan, bind_of_ok hexec, if_pos hend]
    rfl
  have hresult : singleResult w' = .ok v (w'.holding []) := by
    have hdepth : w'.stack.depth = 1 := congrArg List.length hvalues
    unfold singleResult
    rw [get_bind_apply, if_pos hdepth]
    unfold popRaw
    rw [get_bind_apply, hvalues]
    rfl
  have htop : runToResult c bytes w = .ok (v, 4) (w'.holding []) := by
    unfold runToResult
    have hclear : (modify fun w : Workspace => { w with stack := w.stack.cleared } : Eval PUnit) w
        = .ok ⟨⟩ (w.holding []) := rfl
    rw [bind_of_ok hclear, bind_of_ok hrun, bind_of_ok hresult]
    rfl
  unfold evaluate
  rw [bind_of_ok htop]
  have hlift : (lift (resolve c.scope w'.heap v) : Eval Value) (w'.holding [])
      = .ok u (w'.holding []) := by
    rw [hr]
    rfl
  exact bind_of_ok hlift

end Expression

/-! ## 5. What is read under a number -/

namespace Engine

/-- **The stream that reads an entry of a table** has the value of this literal. -/
def Reads (e : Engine) (i : InstanceId) (t : Table) (number : UInt16) (l : Literal) : Prop :=
  ∃ v e', runStream i (t.stream number) [] false e = (.ok (v, 4), e') ∧ l.Denotes e'.heap v

/-- **The instruction leaves one value** on the stack, and that resolves to the value of the
    literal. -/
def Loads (c : Context) (w : Workspace) (read : Instruction) (l : Literal) : Prop :=
  ∃ u v heap, step c read w = .ok () (({ w with heap } : Workspace).holding [v])
    ∧ resolve c.scope heap v = .ok u ∧ l.Denotes heap u

/-- A value finds room on the empty stack. -/
theorem pushValue_empty {w : Workspace} (hempty : w.stack.values = [])
    (hroom : 0 < w.stack.capacity) (v : Value) : pushValue v w = .ok () (w.holding [v]) := by
  rw [pushValue_eq (by rwa [Stack.depth, hempty]), hempty]

section

variable {b : Builders} {e : Engine} {i : InstanceId} (h : e.Opened b i) {w : Workspace}
  (hheap : w.heap = e.heap) (hempty : w.stack.values = []) (hroom : 0 < w.stack.capacity)
  (iterators : List Int32) {index : UInt16} {l : Literal}
include h hempty hroom

theorem Opened.loads_constant (hl : (b.table .constants)[index.toNat]? = some l) :
    Loads ⟨e.scope, i, iterators⟩ w (.pushConstant index) l := by
  have hconstant : e.scope.constants[index.toNat]? = some l := by
    show e.definition.constants[index.toNat]? = _
    rw [h.constants, hl]
  have hdenotes := l.materialize_denotes w.heap
  refine ⟨_, _, (l.materialize w.heap).2, ?_, hdenotes.resolve e.scope, hdenotes⟩
  show pushConstant ⟨e.scope, i, iterators⟩ index w = _
  unfold pushConstant
  rw [hconstant]
  exact pushValue_empty (w := { w with heap := (l.materialize w.heap).2 }) hempty hroom _

include hheap

theorem Opened.loads_global (hl : (b.table .globals)[index.toNat]? = some l) :
    Loads ⟨e.scope, i, iterators⟩ w (.pushGlobal index) l := by
  obtain ⟨v, hv, hdenotes⟩ := h.globals.getElem? hl
  rw [Array.getElem?_toList] at hv
  obtain ⟨hlt, _⟩ := Array.getElem?_eq_some_iff.mp hv
  refine ⟨v, .global index.toNat, w.heap, ?_, ?_, hheap ▸ hdenotes⟩
  · show pushValue (globalTarget e.globals.size index) w = _
    rw [globalTarget, if_pos hlt]
    exact pushValue_empty hempty hroom _
  · unfold resolve Engine.scope
    dsimp only
    rw [hv]

theorem Opened.loads_local (hl : (b.table .locals)[index.toNat]? = some l) :
    Loads ⟨e.scope, i, iterators⟩ w (.pushLocal index) l := by
  obtain ⟨s, inputs, locals, hs, hvalues, hcount, hlocals⟩ := h.locals
  obtain ⟨v, hv, hdenotes⟩ := hlocals.getElem? hl
  have hslots : e.scope.slots? i = some ⟨s.values, s.inputCount⟩ := by
    show (e.instance? i).map _ = _
    rw [hs]
    rfl
  have hslot : s.values[s.inputCount + index.toNat]? = some v := by
    rw [hvalues, hcount, List.getElem?_toArray, List.getElem?_append_right (Nat.le_add_right ..),
      Nat.add_sub_cancel_left, hv]
  obtain ⟨hlt, _⟩ := Array.getElem?_eq_some_iff.mp hslot
  refine ⟨v, .slot i (s.inputCount + index.toNat), w.heap, ?_, ?_, hheap ▸ hdenotes⟩
  · have hown : ownSlots ⟨e.scope, i, iterators⟩ w = .ok ⟨s.values, s.inputCount⟩ w := by
      unfold ownSlots
      rw [hslots]
      rfl
    show pushLocal ⟨e.scope, i, iterators⟩ index w = _
    unfold pushLocal
    rw [bind_of_ok hown]
    dsimp only
    rw [if_pos hlt]
    exact pushValue_empty hempty hroom _
  · unfold resolve
    dsimp only
    rw [hslots, Option.bind_some, hslot]

/-- **An entry of a table** is loaded by the instruction that reads it. -/
theorem Opened.loads {t : Table} (hl : (b.table t)[index.toNat]? = some l) :
    Loads ⟨e.scope, i, iterators⟩ w (t.read index) l :=
  match t with
  | .constants => h.loads_constant hempty hroom iterators hl
  | .globals => h.loads_global hheap hempty hroom iterators hl
  | .locals => h.loads_local hheap hempty hroom iterators hl

end

section

variable {b : Builders} {e : Engine} {i : InstanceId}

/-- **What is read is the entry under thirteen bits of the number**, and nothing else. -/
theorem Opened.reads_iff (h : e.Opened b i) (hroom : 0 < e.stack.capacity) {t : Table}
    {number : UInt16} {entry : Literal}
    (hentry : (b.table t)[number.toNat % 0x2000]? = some entry) (l : Literal) :
    e.Reads i t number l ↔ l = entry := by
  rw [← Instruction.toNat_and_operandMask] at hentry
  obtain ⟨u, v, heap, hstep, hr, hdenotes⟩ :=
    h.loads (w := (Workspace.mk e.stack e.heap).holding []) rfl rfl hroom [] hentry
  have hrun : runStream i (t.stream number) [] false e
      = (.ok (u, 4), { e with stack := e.stack.cleared, heap }) := by
    unfold runStream
    dsimp only
    rw [if_neg Bool.false_ne_true,
      evaluate_single (w := ⟨e.stack, e.heap⟩) (t.scan_stream number) hstep rfl hr]
    rfl
  unfold Reads
  constructor
  · rintro ⟨u', e', hrun', hdenotes'⟩
    cases hrun.symm.trans hrun'
    exact hdenotes'.unique hdenotes
  · rintro rfl
    exact ⟨u, _, hrun, hdenotes⟩

end

/-- **The flow that was built is there and begins**, whatever was asked for. -/
theorem opened_program (name : String) (requests : List Request) (config : Config)
    (hroom : 0 < config.stackCapacity) (dispatcher : Dispatcher) (host : Host) :
    ∃ e₀ i e, build ((Builders.fresh name).after requests).program config dispatcher host = .ok e₀
      ∧ startFlow 0 e₀ = .ok i e ∧ e.Opened ((Builders.fresh name).after requests) i
      ∧ 0 < e.stack.capacity := by
  have hbare := (Builders.bare_fresh name).after requests
  obtain ⟨i, e, hstart, hopened, hstack⟩ := opened_startFlow hbare config dispatcher host
  refine ⟨_, i, e, build_eq_ok_iff.mpr ⟨Builders.validate_program name requests, rfl⟩, hstart,
    hopened, ?_⟩
  rw [hstack]
  exact hroom

/-- **What is read under a number that was handed out.** A builder adds a literal to a table, after
    any requests and before any others. An instance of the flow that was built then begins, and the
    stream that the assembler writes for the number has a value. It is that of the entry whose place
    in the table is that of the literal modulo 2 ^ 13, and so that of the literal itself if there
    were less than 2 ^ 13 entries before it. -/
theorem number_reads (name : String) (before later : List Request) (t : Table) (l : Literal)
    (config : Config) (hroom : 0 < config.stackCapacity) (dispatcher : Dispatcher) (host : Host) :
    let b := (Builders.fresh name).after before
    let handed := b.add t l
    let final := handed.2.after later
    ∃ e₀ i e entry, build final.program config dispatcher host = .ok e₀
      ∧ startFlow 0 e₀ = .ok i e
      ∧ (final.table t)[(b.table t).length % 0x2000]? = some entry
      ∧ (∀ l', e.Reads i t handed.1 l' ↔ l' = entry)
      ∧ ((b.table t).length < 0x2000 → entry = l) := by
  intro b handed final
  have hfinal : final = (Builders.fresh name).after (before ++ .literal t l :: later) :=
    Builders.after_add t l later
  have hown : (final.table t)[(b.table t).length]? = some l :=
    Builders.getElem?_table_add_after t l later
  obtain ⟨hlt, _⟩ := List.getElem?_eq_some_iff.mp hown
  obtain ⟨entry, hentry⟩ : ∃ entry, (final.table t)[(b.table t).length % 0x2000]? = some entry :=
    ⟨_, List.getElem?_eq_getElem (Nat.lt_of_le_of_lt (Nat.mod_le ..) hlt)⟩
  obtain ⟨e₀, i, e, hbuild, hstart, hopened, hcapacity⟩ :=
    opened_program name (before ++ .literal t l :: later) config hroom dispatcher host
  rw [← hfinal] at hbuild hopened
  refine ⟨e₀, i, e, entry, hbuild, hstart, hentry, ?_, fun hfits => ?_⟩
  · -- sixteen bits of the place are the number, and thirteen of these are in the stream
    have hnumber : handed.1.toNat % 0x2000 = (b.table t).length % 0x2000 := by
      rw [Builders.number_add, UInt16.toNat_ofNat']
      omega
    exact hopened.reads_iff hcapacity (hnumber ▸ hentry)
  · rw [Nat.mod_eq_of_lt hfits, hown] at hentry
    exact (Option.some.inj hentry).symm

/-- The second global variable is read under its number, between others. -/
theorem number_reads_second : 0 < ({} : Config).stackCapacity ∧
    let b := (Builders.fresh "main").after
      [.literal .globals (.int 1), .literal .locals .null, .input 0]
    let handed := b.add .globals (.array [.int 2, .boolean true])
    let final := handed.2.after [.literal .globals .null]
    ∃ e₀ i e, build final.program {} .absent {} = .ok e₀ ∧ startFlow 0 e₀ = .ok i e
      ∧ e.Reads i .globals handed.1 (.array [.int 2, .boolean true]) := by
  obtain ⟨e₀, i, e, entry, hbuild, hstart, _, hreads, hentry⟩ := number_reads "main"
    [.literal .globals (.int 1), .literal .locals .null, .input 0] [.literal .globals .null]
    .globals (.array [.int 2, .boolean true]) {} (by decide) .absent {}
  exact ⟨by decide, e₀, i, e, hbuild, hstart, (hreads _).mpr (hentry (by decide)).symm⟩

/-- The requests after which a table has 2 ^ 13 entries and two more. -/
def crowd : List Request :=
  .literal .constants (.int 1) :: List.replicate 8191 (.literal .constants .null)

/-- **Not every number reads what was added under it**: the constant 7 comes after so many others
    that the stream reads the first of them. -/
theorem not_every_number_reads :
    let handed := ((Builders.fresh "main").after crowd).add .constants (.int 7)
    ∃ e₀ i e, build handed.2.program {} .absent {} = .ok e₀ ∧ startFlow 0 e₀ = .ok i e
      ∧ e.Reads i .constants handed.1 (.int 1) ∧ ¬ e.Reads i .constants handed.1 (.int 7) := by
  intro handed
  have hnulls : (List.replicate 8191 (Request.literal .constants .null)).filterMap
      (·.literal? .constants) = List.replicate 8191 .null := List.filterMap_replicate_of_some rfl
  have hadded : crowd.filterMap (·.literal? .constants) = .int 1 :: List.replicate 8191 .null :=
    congrArg (Literal.int 1 :: ·) hnulls
  have htable : ((Builders.fresh "main").after crowd).table .constants
      = .undefined :: .null :: .int 1 :: List.replicate 8191 .null := by
    rw [Builders.table_after, hadded]
    rfl
  have hfinal : handed.2
      = (Builders.fresh "main").after (crowd ++ [.literal .constants (.int 7)]) :=
    Builders.after_add .constants (.int 7) []
  have hentry : (handed.2.table .constants)[handed.1.toNat % 0x2000]? = some (.int 1) := by
    have hnumber : handed.1.toNat % 0x2000 = 2 := by
      rw [Builders.number_add, htable, List.length_cons, List.length_cons, List.length_cons,
        List.length_replicate]
      rfl
    rw [hnumber, Builders.table_add, htable]
    rfl
  obtain ⟨e₀, i, e, hbuild, hstart, hopened, hcapacity⟩ :=
    opened_program "main" (crowd ++ [.literal .constants (.int 7)]) {} (by decide) .absent {}
  rw [← hfinal] at hbuild hopened
  have hreads := hopened.reads_iff hcapacity hentry
  exact ⟨e₀, i, e, hbuild, hstart, (hreads _).mpr rfl, fun h => nomatch (hreads _).mp h⟩

end Engine

end InstrumentFlow
