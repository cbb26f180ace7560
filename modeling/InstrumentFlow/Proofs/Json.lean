import InstrumentFlow.Asset.File
import InstrumentFlow.Proofs.Json.Literals
import InstrumentFlow.Proofs.Text.Utf8

/-!
# Definitions that are saved as JSON

What a definition reads as after it was saved as JSON.

* `Definition.Legible` -- no literal opens more brackets than a reader allows, and every number has
  a spelling;
* `Definition.respelled` -- the definition with every number as its spelling reads;
* `Definition.readJsonText?_toJsonText` -- a text comes back as the respelled definition exactly
  when the definition is legible, sound or not;
* `Definition.json_round_trip` -- the same for sound definitions and for files, and when the
  definition that comes back is the same;
* `Definition.not_json_round_trip` -- an infinite constant makes a file that cannot be loaded.
-/

namespace InstrumentFlow

open Shape

/-! ## 1. What comes back -/

def Flow.respelled (f : Flow) : Flow :=
  { f with locals := f.locals.map (·.mapLeaves .respell) }

namespace Definition

/-- **Every literal can be read again.** Around a constant or a global variable stand two open
    brackets, around a local variable four. -/
structure Legible (d : Definition) : Prop where
  constants : ∀ l ∈ d.constants, l.Legible (deepest - 2)
  globals : ∀ l ∈ d.globals, l.Legible (deepest - 2)
  locals : ∀ f ∈ d.flows, ∀ l ∈ f.locals, l.Legible (deepest - 4)

/-- **The definition with every number as its spelling reads.** -/
def respelled (d : Definition) : Definition where
  flows := d.flows.map Flow.respelled
  constants := d.constants.map (·.mapLeaves .respell)
  globals := d.globals.map (·.mapLeaves .respell)

/-- All literals of a definition that are no arrays, and the elements of those that are. -/
def leaves (d : Definition) : List Literal :=
  (d.flows.flatMap (·.locals) ++ (d.constants ++ d.globals)).flatMap (·.leaves)

end Definition

/-! ## 2. Flows -/

section Flows

variable {f : Flow} {d : Nat}

theorem list_literals {ls : List Literal} (legible : ∀ l ∈ ls, l.Legible d) :
    list Literal.ofJson (d + 1) (.array (Literal.toJsonList ls))
      = some (ls.map (·.mapLeaves .respell)) := by
  rw [Literal.toJsonList_eq]
  exact list_some _ fun l inside => (l.ofJson_toJson d).1 (legible l inside)

theorem list_literals_none {ls : List Literal} (illegible : ¬ ∀ l ∈ ls, l.Legible d) :
    list Literal.ofJson (d + 1) (.array (Literal.toJsonList ls)) = none := by
  obtain ⟨l, inside, lost⟩ : ∃ l ∈ ls, ¬ l.Legible d := by simpa using illegible
  rw [Literal.toJsonList_eq]
  exact list_none inside ((l.ofJson_toJson d).2 lost)

theorem Flow.ofJson_toJson (legible : ∀ l ∈ f.locals, l.Legible (d + 5)) :
    Flow.ofJson (d + 7) f.toJson = some f.respelled := by
  rw [Flow.ofJson, Flow.toJson, fields_ofMembers (by rfl) (by decide)]
  simp [required, text, Json.text, list_id f.components (Component.ofJson_toJson d), byteList_read,
    list_literals legible, Flow.respelled]

theorem Flow.ofJson_toJson_none (illegible : ¬ ∀ l ∈ f.locals, l.Legible (d + 5)) :
    Flow.ofJson (d + 7) f.toJson = none := by
  rw [Flow.ofJson, Flow.toJson, fields_ofMembers (by rfl) (by decide)]
  simp [required, text, Json.text, list_id f.components (Component.ofJson_toJson d), byteList_read,
    list_literals_none illegible]

theorem Flow.spelled_toJson (f : Flow) : f.toJson.Spelled := by
  rw [Flow.toJson, Json.spelled_ofMembers]
  have locals : Json.Spelled (.array (Literal.toJsonList f.locals)) :=
    Literal.spelledItems_toJsonList f.locals
  simp [Json.spelled_text, Json.spelled_map Component.spelled_toJson, spelled_byteList, locals]

theorem Flow.same_respelled (f : Flow) :
    f.same f.respelled = true
      ↔ ∀ leaf ∈ f.locals.flatMap (·.leaves), leaf.same leaf.respell = true := by
  have locals := Literal.sameList_mapLeavesList .respell f.locals
  rw [Literal.mapLeavesList_eq, Literal.leavesList_eq] at locals
  simpa [Flow.same, Flow.respelled] using locals

theorem Flow.sameList_respelled (fs : List Flow) :
    Flow.sameList fs (fs.map Flow.respelled) = true
      ↔ ∀ leaf ∈ (fs.flatMap (·.locals)).flatMap (·.leaves), leaf.same leaf.respell = true := by
  induction fs with
  | nil => simp [Flow.sameList]
  | cons f fs ih =>
    rw [List.map_cons, Flow.sameList, Bool.and_eq_true, f.same_respelled, ih, List.flatMap_cons,
      List.flatMap_append]
    simp only [List.mem_append, or_imp, forall_and]

end Flows

/-! ## 3. Definitions -/

namespace Definition

theorem spelled_toJson (d : Definition) : d.toJson.Spelled := by
  have literals (ls : List Literal) : Json.Spelled (.array (Literal.toJsonList ls)) :=
    Literal.spelledItems_toJsonList ls
  rw [toJson, Json.spelled_ofMembers]
  simp [Json.spelled_map Flow.spelled_toJson, literals]

/-- **The text of a definition** stands for the respelled definition, exactly when the definition
    is legible. -/
theorem readJsonText?_toJsonText (d : Definition) :
    (d.Legible → readJsonText? d.toJsonText = some d.respelled) ∧
      (¬ d.Legible → readJsonText? d.toJsonText = none) := by
  have parsed : readJsonText? d.toJsonText = ofJson deepest d.toJson := by
    rw [readJsonText?, toJsonText, Json.parse?_render d.spelled_toJson, Option.bind_some]
  rw [parsed, ofJson, toJson, deepest, fields_ofMembers (by rfl) (by decide)]
  simp only [List.map_cons, List.map_nil, required, Option.bind_some]
  refine ⟨fun legible => ?_, fun illegible => ?_⟩
  · have flows := list_some (d := 125) Flow.respelled fun f inside =>
      Flow.ofJson_toJson (d := 118) (legible.locals f inside)
    rw [flows, list_literals (d := 125) legible.constants,
      list_literals (d := 125) legible.globals]
    rfl
  · by_cases locals : ∀ f ∈ d.flows, ∀ l ∈ f.locals, l.Legible (deepest - 4)
    · by_cases constants : ∀ l ∈ d.constants, l.Legible (deepest - 2)
      · have globals : ¬ ∀ l ∈ d.globals, l.Legible (deepest - 2) := fun globals =>
          illegible ⟨constants, globals, locals⟩
        rw [list_literals_none (d := 125) globals]
        simp
      · rw [list_literals_none (d := 125) constants]
        simp
    · obtain ⟨f, inside, lost⟩ :
          ∃ f ∈ d.flows, ¬ ∀ l ∈ f.locals, l.Legible (deepest - 4) := by simpa using locals
      rw [list_none (d := 125) inside (Flow.ofJson_toJson_none (d := 118) lost)]
      simp

/-! ## 4. Soundness -/

theorem isUndefined_mapLeaves (l : Literal) :
    (l.mapLeaves .respell).isUndefined = l.isUndefined := by
  cases l with
  | float x =>
    simp only [Literal.mapLeaves, Literal.respell, Literal.respell?]
    cases single 0 (Json.ofBinary Json.singleLayout x) <;> rfl
  | double x =>
    simp only [Literal.mapLeaves, Literal.respell, Literal.respell?]
    cases Shape.double 0 (Json.ofBinary Json.doubleLayout x) <;> rfl
  | _ => rfl

theorem isNull_mapLeaves (l : Literal) : (l.mapLeaves .respell).isNull = l.isNull := by
  cases l with
  | float x =>
    simp only [Literal.mapLeaves, Literal.respell, Literal.respell?]
    cases single 0 (Json.ofBinary Json.singleLayout x) <;> rfl
  | double x =>
    simp only [Literal.mapLeaves, Literal.respell, Literal.respell?]
    cases Shape.double 0 (Json.ofBinary Json.doubleLayout x) <;> rfl
  | _ => rfl

/-- **No check looks at a number**: the respelled definition is as sound as the definition. -/
theorem validate_respelled (d : Definition) : d.respelled.validate = d.validate := by
  have first (n : Nat) : d.respelled.constants[n]?.any Literal.isUndefined
      = d.constants[n]?.any Literal.isUndefined := by
    simp [respelled, Option.any_map, isUndefined_mapLeaves]
  have second (n : Nat) : d.respelled.constants[n]?.any Literal.isNull
      = d.constants[n]?.any Literal.isNull := by
    simp [respelled, Option.any_map, isNull_mapLeaves]
  have flows : (d.respelled.flows.zipIdx.findSome? fun p =>
        flowInvalid? d.respelled.flows.length p.2 p.1)
      = d.flows.zipIdx.findSome? fun p => flowInvalid? d.flows.length p.2 p.1 := by
    simp only [respelled, List.zipIdx_map, List.findSome?_map, List.length_map]
    rfl
  simp only [validate, invalid?, first, second, flows]

/-! ## 5. Files -/

/-- What was written is read again. -/
theorem read_write {dir dir' : Directory} {path : String} {content : List UInt8}
    (written : dir.write path content = .ok dir') : dir'.read path = .ok content := by
  unfold Directory.write at written
  unfold Directory.read
  split at written <;> simp_all [Directory.lookup?]
  subst written
  simp

theorem load_save {d : Definition} {dir dir' : Directory} {path : String}
    (json : isJsonName path = true) (saved : d.save dir path = .ok dir') :
    load dir' path = ofJsonText d.toJsonText := by
  have written : dir.write path (d.fileContent path) = .ok dir' := by
    unfold save at saved
    split at saved <;> simp_all
  rw [load, read_write written, ofFile, ofFileContent, fileContent]
  simp only [json, if_true, Text.decodeUtf8?_encodeUtf8]

/-! ## 6. The round trip -/

theorem same_respelled (d : Definition) :
    d.same d.respelled = true ↔ ∀ leaf ∈ d.leaves, leaf.same leaf.respell = true := by
  have literals (ls : List Literal) :
      Literal.sameList ls (ls.map (·.mapLeaves .respell)) = true
        ↔ ∀ leaf ∈ ls.flatMap (·.leaves), leaf.same leaf.respell = true := by
    have same := Literal.sameList_mapLeavesList .respell ls
    rwa [Literal.mapLeavesList_eq, Literal.leavesList_eq] at same
  rw [Definition.same, Bool.and_eq_true, Bool.and_eq_true, respelled, Flow.sameList_respelled,
    literals, literals, leaves, List.flatMap_append, List.flatMap_append]
  simp only [List.mem_append, or_imp, forall_and, and_assoc]

/-- **What a sound definition reads as after it was saved as JSON.** A legible definition comes back
    with every number as its spelling reads, so it comes back the same exactly when its numbers
    do. Any other cannot be read. A file with the name of a JSON file gives what the text gives. -/
theorem json_round_trip (d : Definition) (sound : d.validate = .ok ()) :
    (d.Legible → ofJsonText d.toJsonText = .ok d.respelled ∧
        (d.same d.respelled = true ↔ ∀ leaf ∈ d.leaves, leaf.same leaf.respell = true)) ∧
      (¬ d.Legible → ofJsonText d.toJsonText = .error .json) ∧
      ∀ path dir dir', isJsonName path = true → d.save dir path = .ok dir' →
        load dir' path = ofJsonText d.toJsonText := by
  have ⟨some_, none_⟩ := d.readJsonText?_toJsonText
  refine ⟨fun legible => ⟨?_, d.same_respelled⟩, fun illegible => ?_, ?_⟩
  · rw [ofJsonText, some_ legible]
    simp only [validate_respelled, sound, Except.map]
  · rw [ofJsonText, none_ illegible]
  · exact fun path dir dir' json saved => load_save json saved

/-- Texts with marks that are escaped, in an array inside an array. -/
def quotedDefinition : Definition where
  flows := [{ name := "set \"µV\"\n", components := [{ kind := .host 7, catchOutput := none }]
              locals := [.array [.array [.string "\\ \t", .int (-7)], .boolean true]] }]

theorem quotedDefinition_legible : quotedDefinition.Legible where
  constants := by simp [quotedDefinition, Literal.Legible, Literal.brackets, Literal.leaves,
    Literal.respell?]
  globals := by simp [quotedDefinition]
  locals := by simp [quotedDefinition, Literal.Legible, Literal.brackets, Literal.bracketsList,
    Literal.leaves, Literal.leavesList, Literal.respell?, deepest]

theorem quotedDefinition_comes_back :
    quotedDefinition.validate = .ok () ∧
      ofJsonText quotedDefinition.toJsonText = .ok quotedDefinition.respelled ∧
      quotedDefinition.same quotedDefinition.respelled = true := by
  have ⟨back, _⟩ := json_round_trip quotedDefinition (by rfl)
  have ⟨loaded, _⟩ := back quotedDefinition_legible
  exact ⟨by rfl, loaded, by decide⟩

/-- A definition with an infinite constant. -/
def boundlessDefinition : Definition where
  flows := [{ name := "main" }]
  constants := [.undefined, .null, .float (Numeric.Binary.infinity false)]

/-- **Not every sound definition can be loaded again**: the infinite constant is spelled as null. -/
theorem not_json_round_trip :
    ¬ ∀ d : Definition, d.validate = .ok () → ∃ back, ofJsonText d.toJsonText = .ok back := by
  intro alwaysLoads
  have infinite : Literal.respell? (.float (Numeric.Binary.infinity false)) = none :=
    Literal.respell?_float_of_not_finite (by decide)
  have illegible : ¬ boundlessDefinition.Legible := fun legible => by
    have inside : .float (Numeric.Binary.infinity false) ∈ boundlessDefinition.constants := by
      simp [boundlessDefinition]
    have readable := (legible.constants _ inside).2 (.float (Numeric.Binary.infinity false))
      (by simp [Literal.leaves])
    simp [infinite] at readable
  obtain ⟨back, loaded⟩ := alwaysLoads boundlessDefinition (by rfl)
  rw [ofJsonText, boundlessDefinition.readJsonText?_toJsonText.2 illegible] at loaded
  contradiction

end Definition

end InstrumentFlow
