import InstrumentFlow.Proofs.Expression.Discipline
import InstrumentFlow.Proofs.Wiring

/-!
# The readers of a stream agree

Whoever decodes, lists, measures or evaluates a stream finds the same end, or none. What a
definition's check has found decodable thus has an end for whoever evaluates it.

Decoding drops the bits that no instruction reads and the bytes after the end, so that many streams
have the same instructions. Encoding them gives one of these streams, and no evaluation can tell it
from the one that was decoded.

* `run_eq` -- an evaluation reads the words that the other readers come past;
* `evaluate_congr`, `evaluateTarget_congr` -- and nothing else of the stream;
* `Finishes`, `BreaksOff` -- a stream with an end and one without, for all readers;
* `Definition.decodes_of_validate` -- the properties of a sound definition have an end;
* `readers_agree` -- **all readers agree**, and a property that was checked never breaks off;
* `encode_scan` -- no end is added to instructions that were decoded;
* `Rewritten`, `rewritten_scan` -- what the stream that is encoded again has in common with the
  one that was decoded;
* `decoded_rewritten` -- **encoding again keeps the meaning** of everything that decodes.
-/

namespace InstrumentFlow

namespace Expression

open Bytecode

/-! ## 1. Evaluations -/

/-- **An evaluation reads the words that the other readers come past**, and then knows whether there
    was an end. -/
theorem run_eq (c : Context) : ∀ bytes : List UInt8, run c bytes = (do
    exec c (scan bytes)
    if .stop ∈ scan bytes then pure (2 * (scan bytes).length) else throw .unterminated)
  | low :: high :: rest => by
    unfold run scan
    dsimp only
    split
    · next hstop => simp [exec, step, hstop]
    · next hstop =>
      rw [run_eq c rest]
      by_cases hrest : .stop ∈ scan rest
      · have hcount : 2 + 2 * (scan rest).length = 2 * ((scan rest).length + 1) := by omega
        simp [exec, hrest, hcount]
      · have hthrow : (2 + ·) <$> (throw .unterminated : Eval Nat) = throw .unterminated := rfl
        simp [exec, hrest, Ne.symm hstop, hthrow]
  | [] | [_] => rfl

section

variable {c : Context} {bytes bytes' : List UInt8}

theorem runToResult_congr (h : scan bytes = scan bytes') :
    runToResult c bytes = runToResult c bytes' := by
  unfold runToResult
  rw [run_eq c bytes, run_eq c bytes', h]

theorem evaluate_congr (h : scan bytes = scan bytes') : evaluate c bytes = evaluate c bytes' := by
  unfold evaluate
  rw [runToResult_congr h]

theorem evaluateTarget_congr (h : scan bytes = scan bytes') :
    evaluateTarget c bytes = evaluateTarget c bytes' := by
  unfold evaluateTarget
  rw [runToResult_congr h]

end

/-- No instruction finds the stream without an end. -/
theorem ne_unterminated_of_breaks {c : Context} {n : Nat} {w w' : Workspace} {err : EvalError}
    (h : Breaks c n w err w') : err ≠ .unterminated := by
  rintro rfl
  cases h with
  | place he | operands he _ _ => exact he
  | target _ _ he _ => exact ofTarget_resolve he

theorem ne_unterminated_of_halts {c : Context} {bytes : List UInt8} {w w' : Workspace}
    {err : EvalError} (hstop : .stop ∈ scan bytes) (h : Halts c bytes w err w') :
    err ≠ .unterminated := by
  cases h with
  | stream h =>
    cases h with
    | instruction _ hi hs =>
      exact ne_unterminated_of_breaks ((yields_step (ends_of_front hi)).of_error hs)
    | unterminated _ hno => exact absurd hstop hno
    | unknown _ => nofun
  | target _ _ he _ =>
    rintro rfl
    exact ofTarget_resolve he
  | count _ _ | value _ => nofun

/-- **An evaluation ends with the first `n` words of a stream**: it misses no end, has taken these
    words wherever it has a result, and what follows them makes no difference. -/
structure EndsWith (evaluation : List UInt8 → Eval (Value × Nat)) (bytes : List UInt8) (n : Nat) :
    Prop where
  terminated : ∀ w err w', evaluation bytes w = .error err w' → err ≠ .unterminated
  consumed : ∀ w r w', evaluation bytes w = .ok r w' → r.2 = 2 * n
  front : ∀ more w, evaluation (bytes.take (2 * n) ++ more) w = evaluation bytes w

theorem endsWith_of_yields {c : Context} {evaluation : List UInt8 → Eval (Value × Nat)}
    {bytes : List UInt8} (hstop : .stop ∈ scan bytes)
    (hyields : ∀ w, Yields (Halts c bytes w) (Results c bytes w) (evaluation bytes) w)
    (hcongr : ∀ bytes', scan bytes' = scan bytes → evaluation bytes' = evaluation bytes) :
    EndsWith evaluation bytes (scan bytes).length where
  terminated w _ _ h := ne_unterminated_of_halts hstop ((hyields w).of_error h)
  consumed w _ _ h := ((hyields w).of_ok h).consumed
  front more w := congrFun (hcongr _ (scan_take_append more hstop)) w

/-! ## 2. All readers -/

/-- **A stream of these instructions**, for all its readers. -/
structure Finishes (bytes : List UInt8) (is : List Instruction) : Prop where
  /-- The listing has one line for each instruction. -/
  lines : (textLines (disassemble bytes)).length = is.length
  last : (textLines (disassemble bytes)).getLast? = some (numberedLine "" (is.length - 1) "END")
  whole : ∀ n, breakLine "" n ∉ textLines (disassemble bytes)
  length : streamLength bytes = 2 * is.length
  value : ∀ c, EndsWith (evaluate c) bytes is.length
  target : ∀ c, EndsWith (evaluateTarget c) bytes is.length

/-- **A stream without an end**, for all its readers. -/
structure BreaksOff (bytes : List UInt8) : Prop where
  last : ∃ n, (textLines (disassemble bytes)).getLast? = some (breakLine "" n)
  length : streamLength bytes = bytes.length
  value : ∀ c w r w', evaluate c bytes w ≠ .ok r w'
  target : ∀ c w r w', evaluateTarget c bytes w ≠ .ok r w'

theorem finishes_scan {bytes : List UInt8} (hstop : .stop ∈ scan bytes) :
    Finishes bytes (scan bytes) := by
  have hlines := textLines_disassemble bytes
  rw [if_pos hstop, List.append_nil] at hlines
  refine ⟨by simp [hlines], ?_, fun n hn => ?_, by rw [streamLength_eq, if_pos hstop],
    fun c => endsWith_of_yields hstop (yields_evaluate c bytes) fun _ => evaluate_congr,
    fun c => endsWith_of_yields hstop (yields_evaluateTarget c bytes) fun _ =>
      evaluateTarget_congr⟩
  · obtain ⟨is, -, heq⟩ := exists_scan_eq hstop
    rw [hlines, heq]
    simp [List.zipIdx_append, instructionLine, instructionText]
  · rw [hlines] at hn
    obtain ⟨p, -, hp⟩ := List.mem_map.mp hn
    exact instructionLine_ne_breakLine p.1 p.2 n hp

theorem breaksOff_of_not_mem {bytes : List UInt8} (hstop : .stop ∉ scan bytes) :
    BreaksOff bytes where
  last := ⟨(scan bytes).length, by simp [textLines_disassemble, hstop]⟩
  length := by rw [streamLength_eq, if_neg hstop]
  value c w _ _ h := hstop ((yields_evaluate c bytes w).of_ok h).terminated
  target c w _ _ h := hstop ((yields_evaluateTarget c bytes w).of_ok h).terminated

end Expression

/-! ## 3. Properties -/

open Bytecode Expression

/-- **The properties of a sound definition have an end**, unless they are empty. -/
theorem Definition.decodes_of_validate {d : Definition} (hv : d.validate = .ok ())
    {flow component index : Nat} {record : Component} {p : Property}
    (hr : d.component? flow component = some record) (hp : record.properties[index]? = some p)
    (hne : p.instructions ≠ []) : .stop ∈ scan p.instructions := by
  obtain ⟨f, hf, hc⟩ := Option.bind_eq_some_iff.mp hr
  obtain ⟨_, _, hproperties, _⟩ :=
    Component.flaw?_eq_none_iff.mp (Definition.flaw?_eq_none hv hf hc)
  exact (Component.propertyFlaw?_eq_none_iff.mp hproperties p
    (List.mem_of_getElem? hp)).resolve_left hne

namespace Engine

/-- A stream with an end never breaks off on the program's own stack. -/
theorem runStream_ne_unterminated {code : List UInt8} (hstop : .stop ∈ scan code) (i : InstanceId)
    (iterators : List Int32) (target : Bool) (e : Engine) :
    (runStream i code iterators target e).1 ≠ .error .unterminated := by
  have hends (w : Workspace) {a : Eval (Value × Nat)}
      (ha : Yields (Halts ⟨e.scope, i, iterators⟩ code w)
        (Results ⟨e.scope, i, iterators⟩ code w) a w) :
      ∀ w', a w ≠ .error .unterminated w' := fun w' h =>
    ne_unterminated_of_halts hstop (ha.of_error h) rfl
  unfold runStream
  dsimp only
  split
  · nofun
  · next cause w h =>
    intro hcause
    obtain rfl := Except.error.inj hcause
    cases target with
    | true => exact hends _ (yields_evaluateTarget _ code _) w h
    | false => exact hends _ (yields_evaluate _ code _) w h

/-- **A property with an end never breaks off.** -/
theorem evaluateProperty_ne_unterminated {e : Engine} {i : InstanceId} {s : Instance}
    (hs : e.instance? i = some s) {component property : Nat} {record : Component} {p : Property}
    (hr : e.definition.component? s.flow component = some record)
    (hp : record.properties[property]? = some p) (hstop : .stop ∈ scan p.instructions)
    (iterators : List Int32) (target : Bool) (activity : Activity) (e' : Engine) :
    evaluateProperty i component property iterators target e
      ≠ .error (.evaluation activity .unterminated) e' := by
  suffices h : Yields (fun err _ => err ≠ .evaluation activity .unterminated) (fun _ _ => True)
      (evaluateProperty i component property iterators target) e from fun he => h.of_error he rfl
  unfold evaluateProperty
  refine yields_get ?_
  rw [hs]
  dsimp only
  rw [componentRecord_eq_ok_iff.mpr hr]
  dsimp only
  rw [hp]
  refine yields_bind (R := fun _ _ => True) ?_ fun _ _ _ => yields_pure trivial
  unfold evaluateIn
  refine yields_get (yields_set_bind ?_)
  split
  · exact yields_pure trivial
  · next cause hcause =>
    refine yields_throw fun herr => runStream_ne_unterminated hstop i iterators target e ?_
    cases herr
    exact hcause

end Engine

/-- **All readers of a stream agree.** Either it decodes and each of them comes to the same end, or
    it does not and none of them finds one. A property that was checked has an end for every
    evaluation. -/
theorem readers_agree :
    (∀ bytes, (∃ is, decode bytes = .ok is ∧ Finishes bytes is)
      ∨ (decode bytes = .error .unterminated ∧ BreaksOff bytes))
    ∧ ∀ e : Engine, e.definition.validate = .ok () →
      ∀ i s, e.instance? i = some s →
      ∀ component record, e.definition.component? s.flow component = some record →
      ∀ property p, record.properties[property]? = some p → p.instructions ≠ [] →
      ∀ iterators target activity e',
        Engine.evaluateProperty i component property iterators target e
          ≠ .error (.evaluation activity .unterminated) e' := by
  refine ⟨fun bytes => ?_, fun e hv i s hs component record hr property p hp hne =>
    Engine.evaluateProperty_ne_unterminated hs hr hp (Definition.decodes_of_validate hv hr hp hne)⟩
  by_cases hstop : .stop ∈ scan bytes
  · exact .inl ⟨scan bytes, by rw [decode_eq, if_pos hstop], finishes_scan hstop⟩
  · exact .inr ⟨by rw [decode_eq, if_neg hstop], breaksOff_of_not_mem hstop⟩

/-- A flow whose component computes a number, by a property that was checked. -/
def computingDefinition : Definition :=
  { constants := [.undefined, .null, .int 7]
    flows :=
      [{ name := "main"
         components := [{ kind := .evalExpr, properties := [⟨[2, 0, 0, 224]⟩] }] }] }

/-- The flow has been started. -/
def computing : Engine :=
  (Engine.built computingDefinition {} .absent {}).after [.order ⟨.startFlow 0, none⟩]

/-- The property was checked, and no evaluation of it breaks off. -/
theorem readers_agree_computing :
    computing.definition.validate = .ok ()
    ∧ (∃ s, computing.instance? ⟨0, 0⟩ = some s
      ∧ ∃ record, computing.definition.component? s.flow 0 = some record
      ∧ record.properties[0]? = some ⟨[2, 0, 0, 224]⟩)
    ∧ ∀ e', Engine.evaluateProperty ⟨0, 0⟩ 0 0 [] false computing
      ≠ .error (.evaluation (.property 0 0) .unterminated) e' := by
  have hv : computing.definition.validate = .ok () := by decide +kernel
  obtain ⟨s, hs, hflow⟩ : ∃ s, computing.instance? ⟨0, 0⟩ = some s ∧ s.flow = 0 := ⟨_, rfl, rfl⟩
  have hr : computing.definition.component? s.flow 0
      = some { kind := .evalExpr, properties := [⟨[2, 0, 0, 224]⟩] } := by
    rw [hflow]
    rfl
  refine ⟨hv, ⟨s, hs, _, hr, rfl⟩, fun e' => ?_⟩
  exact readers_agree.2 computing hv ⟨0, 0⟩ s hs 0 _ hr 0 _ rfl (List.cons_ne_nil _ _) [] false _ e'

/-! ## 4. Encoding again -/

open Bytecode.Instruction

namespace Expression

/-- No end is added to instructions that were decoded. -/
theorem encode_scan {bytes : List UInt8} (hstop : stop ∈ scan bytes) :
    encode (scan bytes) = instructionBytes (scan bytes) := by
  obtain ⟨is, -, heq⟩ := exists_scan_eq hstop
  rw [encode, heq, List.getLast?_concat, if_pos rfl, List.append_nil]

/-- The same instructions are read from it. -/
theorem scan_encode_scan {bytes : List UInt8} (hstop : stop ∈ scan bytes) :
    scan (encode (scan bytes)) = scan bytes := by
  rw [encode_scan hstop, scan_instructionBytes]

/-- **The stream of these instructions stands for the bytes** from which they were decoded. -/
structure Rewritten (bytes : List UInt8) (is : List Instruction) : Prop where
  /-- There is one end. -/
  single : is.count stop = 1
  last : is.getLast? = some stop
  count : (encode is).length = 2 * is.length
  decodes : decode (encode is) = .ok is
  /-- As many bytes were read, and there were as many. -/
  consumed : streamLength bytes = 2 * is.length
  within : 2 * is.length ≤ bytes.length
  /-- They are the bytes that were read, but for operand bits without a use. -/
  stream : encode is = cleared (bytes.take (2 * is.length))
  /-- No evaluation makes a difference between the two, whatever it starts from. -/
  value : ∀ c w, evaluate c (encode is) w = evaluate c bytes w
  target : ∀ c w, evaluateTarget c (encode is) w = evaluateTarget c bytes w
  valueCount : ∀ c w r w', evaluate c bytes w = .ok r w' → r.2 = 2 * is.length
  targetCount : ∀ c w r w', evaluateTarget c bytes w = .ok r w' → r.2 = 2 * is.length

theorem rewritten_scan {bytes : List UInt8} (hstop : stop ∈ scan bytes) :
    Rewritten bytes (scan bytes) := by
  obtain ⟨is, hno, heq⟩ := exists_scan_eq hstop
  have hscan := scan_encode_scan hstop
  have hfinishes := finishes_scan hstop
  exact
    { single := by rw [heq, List.count_append, List.count_eq_zero.mpr hno, List.count_singleton_self]
      last := by rw [heq, List.getLast?_concat]
      count := by rw [encode_scan hstop, length_instructionBytes]
      decodes := by rw [decode_eq, hscan, if_pos hstop]
      consumed := hfinishes.length
      within := length_scan_le bytes
      stream := by rw [encode_scan hstop, instructionBytes_scan]
      value := fun c w => congrFun (evaluate_congr hscan) w
      target := fun c w => congrFun (evaluateTarget_congr hscan) w
      valueCount := fun c => (hfinishes.value c).consumed
      targetCount := fun c => (hfinishes.target c).consumed }

end Expression

/-- **Encoding again keeps the meaning.** The instructions of whatever decodes end with their only
    end. Their stream decodes to them, has the bytes that were read but for operand bits without a
    use, and gives every evaluation the same result and the same count. -/
theorem decoded_rewritten (bytes : List UInt8) (is : List Instruction)
    (h : decode bytes = .ok is) : Rewritten bytes is := by
  rw [decode_eq] at h
  split at h
  · next hstop =>
    obtain rfl := Except.ok.inj h
    exact rewritten_scan hstop
  · cases h

/-- The operand bits of two words and a last byte are lost; the element is still taken. -/
theorem decoded_rewritten_element :
    decode [2, 0, 3, 0, 0x23, 0xA1, 1, 0xE0, 0xFF]
        = .ok [.pushConstant 2, .pushConstant 3, .arrayElement, .stop]
      ∧ encode [.pushConstant 2, .pushConstant 3, .arrayElement, .stop]
        = [2, 0, 3, 0, 0, 0xA0, 0, 0xE0]
      ∧ Rewritten [2, 0, 3, 0, 0x23, 0xA1, 1, 0xE0, 0xFF]
        [.pushConstant 2, .pushConstant 3, .arrayElement, .stop] :=
  ⟨by decide, by decide, decoded_rewritten _ _ (by decide)⟩

end InstrumentFlow
