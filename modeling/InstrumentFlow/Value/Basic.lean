import InstrumentFlow.Literal
import InstrumentFlow.Value.Kind

/-!
# Values and array storage

A value is plain data. Arrays are named by handles into a heap of array storages, so that two
values with one handle share their elements.

* `InstanceId`, `ArrayId` -- handles of flow instances and of array storages;
* `Value` -- what slots, variables and the operand stack hold; its last five forms are write
  targets;
* `Heap` -- the array storages; `Heap.allocate` adds one and `Heap.write` replaces one element;
* `Literal.materialize` -- the value of a literal, every array of it in storage of its own;
* `Image` -- a value with its arrays written out, as it was at one moment;
* `Given` -- a value as a host gives it: plain, an array written out, an element of one, or a value
  that was kept under a name;
* `Given.place` -- the value itself; every array that is written out gets a storage of its own.
-/

namespace InstrumentFlow

open Numeric

/-! ## 1. Handles and values -/

/-- A handle of a flow instance: a place and how often the place had been vacated before. -/
structure InstanceId where
  index : Nat
  generation : UInt32
  deriving DecidableEq, Repr

/-- A handle of an array storage. -/
structure ArrayId where
  index : Nat
  deriving DecidableEq, Repr

inductive Value where
  | undefined
  | null
  | int (i : Int32)
  | float (x : Binary32)
  | double (x : Binary64)
  | boolean (b : Bool)
  | string (s : String)
  | array (a : ArrayId)
  /-- A slot of a flow instance, inputs first, then local variables. -/
  | slot (instanceId : InstanceId) (index : Nat)
  | global (index : Nat)
  | output (index : UInt16)
  | native (id : UInt32)
  | element (a : ArrayId) (index : Nat)
  deriving DecidableEq

namespace Value

def kind : Value → ValueKind
  | undefined => .undefined
  | null => .null
  | int _ => .integer
  | float _ => .float
  | double _ => .double
  | boolean _ => .boolean
  | string _ => .string
  | array _ => .array
  | slot _ _ | global _ => .reference
  | output _ => .flowOutput
  | native _ => .nativeVariable
  | element _ _ => .arrayElement

def isUndefined : Value → Bool
  | undefined => true
  | _ => false

def isString : Value → Bool
  | string _ => true
  | _ => false

def isNumber : Value → Bool
  | int _ | float _ | double _ => true
  | _ => false

/-- A place that an assignment can write to. -/
def isAssignable : Value → Bool
  | slot _ _ | global _ | output _ | native _ | element _ _ => true
  | _ => false

end Value

/-! ## 2. Array storage -/

/-- All array storages; a handle is a position. -/
structure Heap where
  cells : Array (Array Value) := #[]

namespace Heap

/-- The elements of a storage. -/
def elements (h : Heap) (a : ArrayId) : Array Value := (h.cells[a.index]?).getD #[]

/-- A new storage with these elements. -/
def allocate (h : Heap) (elements : Array Value) : ArrayId × Heap :=
  (⟨h.cells.size⟩, ⟨h.cells.push elements⟩)

/-- Replaces one element; nothing happens outside the storage. -/
def write (h : Heap) (a : ArrayId) (index : Nat) (v : Value) : Heap :=
  ⟨h.cells.modify a.index (·.setIfInBounds index v)⟩

end Heap

/-! ## 3. Values of literals -/

namespace Literal

mutual

/-- The value of a literal. Every array of it gets a storage of its own, inner arrays first. -/
def materialize : Literal → Heap → Value × Heap
  | undefined, h => (.undefined, h)
  | null, h => (.null, h)
  | int i, h => (.int i, h)
  | float x, h => (.float x, h)
  | double x, h => (.double x, h)
  | boolean b, h => (.boolean b, h)
  | string s, h => (.string s, h)
  | array items, h =>
    let (elements, h') := materializeList items h
    let (a, h'') := h'.allocate elements.toArray
    (.array a, h'')

/-- The values of a list of literals, in order. -/
def materializeList : List Literal → Heap → List Value × Heap
  | [], h => ([], h)
  | l :: ls, h =>
    let (v, h') := materialize l h
    let (vs, h'') := materializeList ls h'
    (v :: vs, h'')

end

end Literal

/-! ## 4. Values written out -/

/-- A value at one moment, with the elements of its arrays in place of their handles. -/
inductive Image where
  | plain (v : Value)
  | array (items : List Image)
  | element (index : Nat) (items : List Image)
  /-- Inside an array that contains itself. -/
  | endless

/-- The image of a value, following at most `depth` arrays inside each other. -/
def Heap.imageWithin (h : Heap) : Nat → Value → Image
  | depth + 1, .array a => .array ((h.elements a).toList.map (h.imageWithin depth))
  | depth + 1, .element a index => .element index ((h.elements a).toList.map (h.imageWithin depth))
  | 0, .array _ | 0, .element _ _ => .endless
  | _, v => .plain v

/-- The image of a value. Arrays that do not contain themselves nest at most as deep as there are
    storages. -/
def Heap.image (h : Heap) (v : Value) : Image := h.imageWithin (h.cells.size + 1) v

/-! ## 5. Values that a host gives -/

inductive Given where
  | plain (v : Value)
  | array (items : List Given)
  | element (index : Nat) (array : Given)
  | kept (name : String)

namespace Given

mutual

/-- The value, and the heap with the arrays that it brought. `kept` answers for names. -/
def place (kept : String → Value) : Given → Heap → Value × Heap
  | plain v, h => (v, h)
  | array items, h =>
    let (elements, h') := placeList kept items h
    let (a, h'') := h'.allocate elements.toArray
    (.array a, h'')
  | element index g, h =>
    let (v, h') := place kept g h
    match v with
    | .array a => (.element a index, h')
    | _ => (.undefined, h')
  | .kept name, h => (kept name, h)

/-- The values of a list, in order. -/
def placeList (kept : String → Value) : List Given → Heap → List Value × Heap
  | [], h => ([], h)
  | g :: gs, h =>
    let (v, h') := place kept g h
    let (vs, h'') := placeList kept gs h'
    (v :: vs, h'')

end

end Given

end InstrumentFlow
