import InstrumentFlow.Value.Basic

/-!
# Tasks and their queue

* `Task` -- one step of a component that is to be run;
* `TaskQueue` -- tasks in the order in which they came, bounded in number. A full queue refuses
  a task instead of losing one.
-/

namespace InstrumentFlow

structure Task where
  instanceId : InstanceId
  component : Nat
  /-- Resumes a component that is in the middle of its work. -/
  continuous : Bool
  deriving DecidableEq, Repr

structure TaskQueue where
  tasks : List Task := []
  capacity : Nat
  deriving DecidableEq, Repr

namespace TaskQueue

def size (q : TaskQueue) : Nat := q.tasks.length

def isEmpty (q : TaskQueue) : Bool := q.tasks.isEmpty

/-- The queue with a task behind all others, unless it is full. -/
def push? (q : TaskQueue) (t : Task) : Option TaskQueue :=
  if q.size < q.capacity then some { q with tasks := q.tasks ++ [t] } else none

/-- The queue without its first task. -/
def pop (q : TaskQueue) : TaskQueue := { q with tasks := q.tasks.tail }

def hasTasksOf (q : TaskQueue) (i : InstanceId) : Bool := q.tasks.any (·.instanceId == i)

/-- The queue without the tasks of an instance. -/
def discard (q : TaskQueue) (i : InstanceId) : TaskQueue :=
  { q with tasks := q.tasks.filter (·.instanceId != i) }

def clear (q : TaskQueue) : TaskQueue := { q with tasks := [] }

end TaskQueue

end InstrumentFlow
