import InstrumentFlow.Engine.Instance

/-!
# The forest of instances

Live instances stand in numbered entries. An entry that is vacated is used again, the one vacated
last first, and counts how often that happened, so that old handles of it lead nowhere.

* `Entry`, `Forest` -- the entries, the vacated ones, and the instances without a parent;
* `Forest.get?`, `contains`, `modify` -- access by handle;
* `Forest.insert`, `Forest.remove` -- the two changes of shape, which keep the links between
  parents and children.
-/

namespace InstrumentFlow

structure Entry where
  generation : UInt32
  content : Option Instance

structure Forest where
  entries : Array Entry := #[]
  /-- The vacated entries, the last one first. -/
  free : List Nat := []
  roots : List InstanceId := []
  live : Nat := 0

namespace Forest

/-! ## 1. Access -/

/-- The live instance of a handle. -/
def get? (f : Forest) (i : InstanceId) : Option Instance :=
  match f.entries[i.index]? with
  | some entry => if entry.generation = i.generation then entry.content else none
  | none => none

def contains (f : Forest) (i : InstanceId) : Bool := (f.get? i).isSome

/-- Changes the live instance of a handle. -/
def modify (f : Forest) (i : InstanceId) (change : Instance → Instance) : Forest :=
  { f with
    entries := f.entries.modify i.index fun entry =>
      if entry.generation = i.generation then
        { entry with content := entry.content.map change }
      else entry }

/-! ## 2. Changes of shape -/

/-- Lets a handle join the children of its parent, or the roots. -/
def link (f : Forest) (i : InstanceId) (parent : Option InstanceId) : Forest :=
  match parent with
  | some p =>
    if f.contains p then f.modify p fun s => { s with children := s.children ++ [i] }
    else { f with roots := f.roots ++ [i] }
  | none => { f with roots := f.roots ++ [i] }

/-- Takes a handle out of the children of its parent, or out of the roots. -/
def unlink (f : Forest) (i : InstanceId) (parent : Option InstanceId) : Forest :=
  match parent with
  | some p =>
    if f.contains p then f.modify p fun s => { s with children := s.children.filter (· != i) }
    else { f with roots := f.roots.filter (· != i) }
  | none => { f with roots := f.roots.filter (· != i) }

/-- Puts an instance into an entry: the one vacated last, or a new one. -/
def place (f : Forest) (s : Instance) : InstanceId × Forest :=
  match f.free with
  | index :: free =>
    let generation := (f.entries[index]?.map Entry.generation).getD 0
    (⟨index, generation⟩,
      { f with
        entries := f.entries.setIfInBounds index ⟨generation, some s⟩
        free, live := f.live + 1 })
  | [] =>
    (⟨f.entries.size, 0⟩, { f with entries := f.entries.push ⟨0, some s⟩, live := f.live + 1 })

/-- **Adds an instance** under its parent, or as a root. -/
def insert (f : Forest) (s : Instance) : InstanceId × Forest :=
  let (i, f) := f.place s
  (i, f.link i (s.parent.map (·.1)))

/-- Empties the entry of a handle; the generation rises, at its greatest value back to zero. -/
def vacate (f : Forest) (i : InstanceId) : Forest :=
  { f with
    entries := f.entries.setIfInBounds i.index ⟨i.generation + 1, none⟩
    free := i.index :: f.free
    live := f.live - 1 }

/-- **Removes an instance**, and gives what it was. -/
def remove (f : Forest) (i : InstanceId) : Option (Instance × Forest) :=
  match f.get? i with
  | none => none
  | some s => some (s, (f.vacate i).unlink i (s.parent.map (·.1)))

end Forest

end InstrumentFlow
