import InstrumentFlow.Proofs.Expression.Depth
import Mathlib.Data.List.TakeWhile

/-!
# The discipline of the stack

How deep the stack is at each moment of an expression can be read from its stream, before anything
is evaluated. An expression that has a value has kept to that, and one that keeps to it never fails
for the depth of its stack.

* `body` -- the instructions that a stream can come to;
* `depthAfter`, `Fits` -- what is read from them: the depth, and that there are operands and room;
* `exec`, `Stands` -- the instructions one after the other, and the moments between them;
* `Stands.depth_eq`, `Stands.fits` -- at each moment the stack is as deep as was read;
* `Stops`, `Halts`, `Results` -- how a stream stops, and how an evaluation ends;
* `yields_run`, `yields_evaluate`, `yields_evaluateTarget` -- each ends in one of these ways;
* `disciplined_evaluation` -- **the discipline of the stack**, for both evaluations.
-/

namespace InstrumentFlow.Expression

open Bytecode

/-! ## 1. Reading a stream -/

/-- **The instructions that a stream can come to**: those before its end, and before an operation
    that does not exist. -/
def body (bytes : List UInt8) : List Instruction := (scan bytes).takeWhile fun i => !i.ends

theorem ends_of_mem_body {bytes : List UInt8} {i : Instruction} (hi : i ∈ body bytes) :
    i.ends = false := by simpa using List.mem_takeWhile_imp hi

theorem ends_of_front {bytes : List UInt8} {done : List Instruction} {i : Instruction}
    (hi : done ++ [i] <+: body bytes) : i.ends = false :=
  ends_of_mem_body (hi.subset (List.mem_append_right done List.mem_cons_self))

/-- **The depth in which instructions leave the stack**, each with one value for its operands. -/
def depthAfter (n : Nat) (is : List Instruction) : Nat :=
  is.foldl (fun n i => n - i.operands + 1) n

/-- **Every instruction finds its operands and room for its result**, from the empty stack on. -/
def Fits (capacity : Nat) (is : List Instruction) : Prop :=
  ∀ done i, done ++ [i] <+: is →
    i.operands ≤ depthAfter 0 done ∧ depthAfter 0 done - i.operands < capacity

/-! ## 2. Instructions one after the other -/

/-- **The instructions one after the other**, as far as none fails. -/
def exec (c : Context) : List Instruction → Eval Unit
  | [] => pure ()
  | i :: is => do
    step c i
    exec c is

theorem exec_cons {c : Context} {i : Instruction} {is : List Instruction} {w w' : Workspace}
    (h : exec c (i :: is) w = .ok () w') :
    ∃ m, step c i w = .ok () m ∧ exec c is m = .ok () w' := by
  obtain ⟨_, m, hs, h⟩ := bind_eq_ok h
  exact ⟨m, hs, h⟩

theorem exec_cons_of_ok {c : Context} {i : Instruction} {w m : Workspace}
    (hs : step c i w = .ok () m) (is : List Instruction) : exec c (i :: is) w = exec c is m :=
  bind_of_ok hs

/-- **A moment of the instructions**: those at the front have run and left the workspace. -/
structure Stands (c : Context) (is : List Instruction) (w : Workspace) (done : List Instruction)
    (m : Workspace) : Prop where
  front : done <+: is
  run : exec c done w = .ok () m

section

variable {c : Context} {is done : List Instruction} {i : Instruction} {w w' m : Workspace}

theorem stands_nil : Stands c is w [] w := ⟨List.nil_prefix, rfl⟩

theorem Stands.cons (hs : step c i w = .ok () w') (h : Stands c is w' done m) :
    Stands c (i :: is) w (i :: done) m :=
  ⟨List.cons_prefix_cons.mpr ⟨rfl, h.front⟩, (exec_cons_of_ok hs done).trans h.run⟩

/-- What instructions leave: the depth that can be read from them, within the capacity. -/
structure Ran (is : List Instruction) (w m : Workspace) : Prop where
  depth : m.stack.depth = depthAfter w.stack.depth is
  capacity : m.stack.capacity = w.stack.capacity
  bounded : w.stack.depth ≤ w.stack.capacity → m.stack.depth ≤ m.stack.capacity

theorem ran_of_exec : ∀ {is : List Instruction} {w : Workspace}, (∀ i ∈ is, i.ends = false) →
    exec c is w = .ok () m → Ran is w m
  | [], w, _, h => by
    cases h
    exact ⟨rfl, rfl, id⟩
  | i :: is, w, hends, h => by
    obtain ⟨w₁, hs, h⟩ := exec_cons h
    have hleaves := (yields_step (hends i List.mem_cons_self)).of_ok hs
    have ih := ran_of_exec (fun i hi => hends i (List.mem_cons_of_mem _ hi)) h
    have hbound : w₁.stack.depth ≤ w₁.stack.capacity := by
      rw [hleaves.depth, hleaves.capacity]
      exact hleaves.room
    exact ⟨ih.depth.trans (by rw [hleaves.depth]; rfl), ih.capacity.trans hleaves.capacity,
      fun _ => ih.bounded hbound⟩

/-- A failure comes from one of the instructions, after those before it have run. -/
theorem stands_of_exec_ok (h : exec c is w = .ok () w') (hi : done ++ [i] <+: is) :
    ∃ m m', Stands c is w done m ∧ step c i m = .ok () m' := by
  induction done generalizing is w with
  | nil =>
    obtain ⟨later, rfl⟩ := hi
    obtain ⟨m, hs, _⟩ := exec_cons h
    exact ⟨w, m, stands_nil, hs⟩
  | cons j done ih =>
    cases is with
    | nil => simp at hi
    | cons k is =>
      rw [List.cons_append, List.cons_prefix_cons] at hi
      obtain ⟨rfl, hlater⟩ := hi
      obtain ⟨w₁, hs, h⟩ := exec_cons h
      obtain ⟨m, m', hm, hstep⟩ := ih h hlater
      exact ⟨m, m', hm.cons hs, hstep⟩

/-! ## 3. The moments of a stream -/

/-- The workspace with which an evaluation begins. -/
def Workspace.fresh (w : Workspace) : Workspace := { w with stack := w.stack.cleared }

variable {bytes : List UInt8}

theorem Stands.ran (h : Stands c (body bytes) w done m) : Ran done w m :=
  ran_of_exec (fun _ hi => ends_of_mem_body (h.front.subset hi)) h.run

/-- **At each moment the stack is as deep as can be read from the stream.** -/
theorem Stands.depth_eq (h : Stands c (body bytes) w.fresh done m) :
    m.stack.depth = depthAfter 0 done := h.ran.depth

theorem Stands.capacity_eq (h : Stands c (body bytes) w.fresh done m) :
    m.stack.capacity = w.stack.capacity := h.ran.capacity

theorem Stands.depth_le (h : Stands c (body bytes) w.fresh done m) :
    m.stack.depth ≤ w.stack.capacity := h.capacity_eq ▸ h.ran.bounded (Nat.zero_le _)

/-- **A stream that comes to its end** found operands and room for each instruction. -/
theorem Stands.fits (h : Stands c (body bytes) w.fresh (body bytes) m) :
    Fits w.stack.capacity (body bytes) := by
  intro done i hi
  obtain ⟨m₁, m₂, hm, hs⟩ := stands_of_exec_ok h.run hi
  have hleaves := (yields_step (ends_of_front hi)).of_ok hs
  rw [← hm.depth_eq, ← hm.capacity_eq]
  exact ⟨hleaves.enough, hleaves.room⟩

end

/-! ## 4. How an evaluation ends -/

/-- **How a stream stops** before its end. -/
inductive Stops (c : Context) (bytes : List UInt8) (w : Workspace) : EvalError → Workspace → Prop
  /-- One of its instructions fails. -/
  | instruction {done : List Instruction} {i : Instruction} {m w' : Workspace} {err : EvalError}
      (hm : Stands c (body bytes) w done m) (hi : done ++ [i] <+: body bytes)
      (hs : step c i m = .error err w') : Stops c bytes w err w'
  /-- There are no more words, and there was no end. -/
  | unterminated {m : Workspace} (hm : Stands c (body bytes) w (body bytes) m)
      (hno : .stop ∉ scan bytes) : Stops c bytes w .unterminated m
  /-- An operation does not exist. -/
  | unknown {m : Workspace} {index : UInt16} (hm : Stands c (body bytes) w (body bytes) m) :
      Stops c bytes w (.unknownOperation index) m

/-- **How an evaluation ends without a result.** -/
inductive Halts (c : Context) (bytes : List UInt8) (w : Workspace) : EvalError → Workspace → Prop
  | stream {err : EvalError} {w' : Workspace} (h : Stops c bytes w.fresh err w') :
      Halts c bytes w err w'
  /-- There is other than one value. -/
  | count {m : Workspace} (hm : Stands c (body bytes) w.fresh (body bytes) m)
      (hd : m.stack.depth ≠ 1) : Halts c bytes w (.malformedStack m.stack.depth) m
  /-- The value is a write target that leads nowhere. -/
  | target {m w' : Workspace} {v : Value} {err : EvalError}
      (hm : Stands c (body bytes) w.fresh (body bytes) m) (hv : m.stack.values = [v])
      (he : resolve c.scope m.heap v = .error err) (hw : w'.stack = w.stack.cleared) :
      Halts c bytes w err w'
  /-- The value is no write target. -/
  | value {w' : Workspace} {kind : ValueKind} (hw : w'.stack = w.stack.cleared) :
      Halts c bytes w (.notAssignable kind) w'

/-- **What an evaluation leaves with its result.** -/
structure Results (c : Context) (bytes : List UInt8) (w : Workspace) (r : Value × Nat)
    (w' : Workspace) : Prop where
  moment : ∃ m, Stands c (body bytes) w.fresh (body bytes) m ∧ m.stack.depth = 1
  terminated : .stop ∈ scan bytes
  consumed : r.2 = 2 * (scan bytes).length
  stack : w'.stack = w.stack.cleared

section

variable {c : Context} {w w₁ : Workspace} {low high : UInt8} {bytes rest : List UInt8}

theorem body_cons (h : (Instruction.ofWord (Instruction.wordOfBytes low high)).ends = false) :
    body (low :: high :: rest)
      = Instruction.ofWord (Instruction.wordOfBytes low high) :: body rest := by
  have hstop : Instruction.ofWord (Instruction.wordOfBytes low high) ≠ .stop := by
    intro hstop
    rw [hstop] at h
    cases h
  simp [body, scan, hstop, h]

theorem body_of_ends (h : (Instruction.ofWord (Instruction.wordOfBytes low high)).ends = true) :
    body (low :: high :: rest) = [] := by
  unfold body scan
  dsimp only
  split <;> simp [h]

theorem Stops.cons {err : EvalError} {w' : Workspace}
    (hi : (Instruction.ofWord (Instruction.wordOfBytes low high)).ends = false)
    (hs : step c (Instruction.ofWord (Instruction.wordOfBytes low high)) w = .ok () w₁)
    (h : Stops c rest w₁ err w') : Stops c (low :: high :: rest) w err w' := by
  have hbody : body (low :: high :: rest) = _ := body_cons hi
  cases h with
  | instruction hm hlater hfail =>
    refine .instruction (hbody ▸ hm.cons hs) ?_ hfail
    rw [hbody]
    exact List.cons_prefix_cons.mpr ⟨rfl, hlater⟩
  | unterminated hm hno =>
    refine .unterminated (hbody ▸ hm.cons hs) ?_
    unfold scan
    dsimp only
    split
    · next hstop =>
      rw [hstop] at hi
      cases hi
    · next hstop => simpa [Ne.symm hstop] using hno
  | unknown hm => exact .unknown (hbody ▸ hm.cons hs)

theorem step_of_ends {i : Instruction} (h : i.ends = true) (hstop : i ≠ .stop) :
    ∃ index, step c i w = .error (.unknownOperation index) w := by
  cases i with
  | operation index =>
    refine ⟨index, ?_⟩
    have hnone : Operation.ofIndex? index.toNat = none := Option.isNone_iff_eq_none.mp h
    simp only [step, hnone]
    rfl
  | stop => exact absurd rfl hstop
  | _ => cases h

/-- The first instruction is applied, or the stream stops there. -/
theorem yields_first {low high : UInt8} (rest : List UInt8) {w : Workspace}
    (hends : (Instruction.ofWord (Instruction.wordOfBytes low high)).ends = false) :
    Yields (Stops c (low :: high :: rest) w)
      (fun _ w₁ => step c (Instruction.ofWord (Instruction.wordOfBytes low high)) w = .ok () w₁)
      (step c (Instruction.ofWord (Instruction.wordOfBytes low high))) w := by
  unfold Yields
  split
  · next hs => exact hs
  · next hs =>
    refine .instruction stands_nil ?_ hs
    rw [body_cons hends]
    exact List.cons_prefix_cons.mpr ⟨rfl, List.nil_prefix⟩

/-- **A stream runs to its end or stops** in one of the ways there are. -/
theorem yields_run : ∀ (bytes : List UInt8) (w : Workspace),
    Yields (Stops c bytes w) (fun n m => Stands c (body bytes) w (body bytes) m
      ∧ .stop ∈ scan bytes ∧ n = 2 * (scan bytes).length) (run c bytes) w
  | low :: high :: rest, w => by
    unfold run
    dsimp only
    split
    · next hstop =>
      have hbody : body (low :: high :: rest) = [] := body_of_ends (by rw [hstop]; rfl)
      have hscan : scan (low :: high :: rest) = [.stop] := by simp [scan, hstop]
      rw [hbody, hscan]
      exact yields_pure ⟨stands_nil, List.mem_singleton_self _, rfl⟩
    · next hstop =>
      have hscan : scan (low :: high :: rest)
          = Instruction.ofWord (Instruction.wordOfBytes low high) :: scan rest := by
        simp [scan, hstop]
      cases hends : (Instruction.ofWord (Instruction.wordOfBytes low high)).ends with
      | true =>
        obtain ⟨index, hstep⟩ := step_of_ends (c := c) (w := w) hends hstop
        have hstands : Stands c (body (low :: high :: rest)) w (body (low :: high :: rest)) w := by
          rw [body_of_ends hends]
          exact stands_nil
        refine yields_bind (R := fun _ _ => False) ?_ fun _ _ => False.elim
        rw [Yields, hstep]
        exact .unknown hstands
      | false =>
        refine yields_bind (yields_first rest hends) fun _ w₁ hs => ?_
        have hrest := (yields_run rest w₁).mono (fun _ _ => Stops.cons hends hs) fun _ _ => id
        refine yields_bind hrest fun n m h => ?_
        obtain ⟨hm, hstops, hn⟩ := h
        refine yields_pure ⟨?_, ?_, ?_⟩
        · exact body_cons hends ▸ hm.cons hs
        · exact hscan ▸ List.mem_cons_of_mem _ hstops
        · rw [hscan, hn, List.length_cons]
          omega
  | [], w | [_], w => yields_throw (.unterminated stands_nil List.not_mem_nil)

/-- The only value comes off the stack, if it is the only one. -/
theorem yields_singleResult {m : Workspace} (hm : Stands c (body bytes) w.fresh (body bytes) m) :
    Yields (Halts c bytes w) (fun v m' => m.stack.values = [v] ∧ m'.stack = w.stack.cleared
      ∧ m'.heap = m.heap) singleResult m := by
  unfold singleResult
  refine yields_get ?_
  dsimp only
  split
  · next hd =>
    obtain ⟨v, hv⟩ := List.length_eq_one_iff.mp hd
    unfold popRaw
    refine yields_get ?_
    rw [hv]
    refine yields_set_bind (yields_pure ⟨rfl, ?_, rfl⟩)
    have hcapacity : m.stack.capacity = w.stack.capacity := hm.capacity_eq
    simp only [Stack.cleared, hcapacity]
  · next hd => exact yields_throw (.count hm hd)

theorem yields_runToResult (bytes : List UInt8) (w : Workspace) :
    Yields (Halts c bytes w) (fun r w' => Results c bytes w r w' ∧
      ∃ m, Stands c (body bytes) w.fresh (body bytes) m ∧ m.stack.values = [r.1]
        ∧ w'.heap = m.heap) (runToResult c bytes) w := by
  unfold runToResult
  refine yields_modify_bind ?_
  have hrun := (yields_run (c := c) bytes w.fresh).mono (fun _ _ => Halts.stream) fun _ _ => id
  refine yields_bind hrun fun n m ⟨hm, hstops, hn⟩ => ?_
  refine yields_bind (yields_singleResult hm) fun v m' ⟨hv, hstack, hheap⟩ => ?_
  refine yields_pure ⟨⟨⟨m, hm, ?_⟩, hstops, hn, hstack⟩, m, hm, hv, hheap⟩
  rw [Stack.depth, hv]
  rfl

/-- **The value of a stream** comes with a result, or the evaluation halts. -/
theorem yields_evaluate (c : Context) (bytes : List UInt8) (w : Workspace) :
    Yields (Halts c bytes w) (Results c bytes w) (evaluate c bytes) w := by
  unfold evaluate
  refine yields_bind (yields_runToResult bytes w) fun r w' ⟨hr, m, hm, hv, hheap⟩ => ?_
  refine yields_get ?_
  rw [hheap]
  cases hresolve : resolve c.scope m.heap r.1 with
  | ok u => exact yields_pure ⟨hr.moment, hr.terminated, hr.consumed, hr.stack⟩
  | error err => exact yields_throw (.target hm hv hresolve hr.stack)

/-- **The write target of a stream** comes with a result, or the evaluation halts. -/
theorem yields_evaluateTarget (c : Context) (bytes : List UInt8) (w : Workspace) :
    Yields (Halts c bytes w) (Results c bytes w) (evaluateTarget c bytes) w := by
  unfold evaluateTarget
  refine yields_bind (yields_runToResult bytes w) fun r w' ⟨hr, _⟩ => ?_
  dsimp only
  split
  · exact yields_pure hr
  · exact yields_throw (.value hr.stack)

end

/-! ## 5. The discipline of the stack -/

/-- **The discipline of the stack** in an evaluation that came to an outcome. -/
structure Disciplined (c : Context) (bytes : List UInt8) (w : Workspace)
    (outcome : EStateM.Result EvalError Workspace (Value × Nat)) : Prop where
  /-- With a result the stream fits, comes to one value and leaves the stack empty. -/
  fits : ∀ r w', outcome = .ok r w' → Fits w.stack.capacity (body bytes)
    ∧ depthAfter 0 (body bytes) = 1 ∧ w'.stack.values = []
  /-- A stream that fits and comes to one value does not fail for the depth of its stack. -/
  safe : Fits w.stack.capacity (body bytes) → depthAfter 0 (body bytes) = 1 →
    ∀ err w', outcome = .error err w' → ¬ err.OfDepth
  /-- At each moment the stack is as deep as was read, and within its capacity. -/
  bounded : ∀ done m, Stands c (body bytes) w.fresh done m →
    m.stack.depth = depthAfter 0 done ∧ m.stack.depth ≤ w.stack.capacity
  /-- So it is in the end. -/
  left : (stateAfter outcome).stack.depth ≤ w.stack.capacity
  /-- An instruction that fails by itself has taken its operands and nothing else. -/
  operands : (∀ done m, Stands c (body bytes) w.fresh done m →
      ∀ v ∈ m.stack.values, ∃ u, resolve c.scope m.heap v = .ok u) →
    ∀ err w', outcome = .error err w' → err.OfOperands →
      ∃ done i m, done ++ [i] <+: body bytes ∧ Stands c (body bytes) w.fresh done m
        ∧ step c i m = .error err w' ∧ 0 < i.operands ∧ i.operands ≤ depthAfter 0 done
        ∧ w'.stack = m.stack.drop i.operands
        ∧ w'.stack.depth = depthAfter 0 done - i.operands

section

variable {c : Context} {bytes : List UInt8} {w w' : Workspace} {err : EvalError}

theorem not_ofDepth_of_breaks {i : Instruction} {m : Workspace} (h : Breaks c i.operands m err w')
    (henough : i.operands ≤ m.stack.depth)
    (hroom : m.stack.depth - i.operands < m.stack.capacity) : ¬ err.OfDepth := by
  cases h with
  | place he => exact he.not_ofDepth
  | underflow hn _ => exact absurd henough (Nat.not_le.mpr hn)
  | target _ _ he _ => exact (ofTarget_resolve he).not_ofDepth
  | operands he _ _ => exact he.not_ofDepth
  | overflow _ hfull _ => exact absurd hroom (Nat.not_lt.mpr hfull)

theorem not_ofDepth_of_halts (hfits : Fits w.stack.capacity (body bytes))
    (hone : depthAfter 0 (body bytes) = 1) (h : Halts c bytes w err w') : ¬ err.OfDepth := by
  cases h with
  | stream h =>
    cases h with
    | instruction hm hi hs =>
      obtain ⟨henough, hroom⟩ := hfits _ _ hi
      rw [← hm.depth_eq] at henough hroom
      rw [← hm.capacity_eq] at hroom
      exact not_ofDepth_of_breaks ((yields_step (ends_of_front hi)).of_error hs) henough hroom
    | unterminated _ _ | unknown _ => exact id
  | count hm hd => exact absurd (hm.depth_eq.trans hone) hd
  | target _ _ he _ => exact (ofTarget_resolve he).not_ofDepth
  | value _ => exact id

theorem depth_le_of_halts (h : Halts c bytes w err w') :
    w'.stack.depth ≤ w.stack.capacity := by
  cases h with
  | stream h =>
    cases h with
    | instruction hm hi hs =>
      have hbreaks := (yields_step (ends_of_front hi)).of_error hs
      exact hbreaks.depth_le.trans hm.depth_le
    | unterminated hm _ | unknown hm => exact hm.depth_le
  | count hm _ => exact hm.depth_le
  | target _ _ _ hw | value hw =>
    rw [hw]
    exact Nat.zero_le _

/-- **An instruction that fails by itself** is the one at the moment of the failure. Where a write
    target leads nowhere an index is out of bounds as well, and so all of them must hold something. -/
theorem operands_of_halts
    (hresolve : ∀ done m, Stands c (body bytes) w.fresh done m →
      ∀ v ∈ m.stack.values, ∃ u, resolve c.scope m.heap v = .ok u)
    (h : Halts c bytes w err w') (herr : err.OfOperands) :
    ∃ done i m, done ++ [i] <+: body bytes ∧ Stands c (body bytes) w.fresh done m
      ∧ step c i m = .error err w' ∧ 0 < i.operands ∧ i.operands ≤ depthAfter 0 done
      ∧ w'.stack = m.stack.drop i.operands
      ∧ w'.stack.depth = depthAfter 0 done - i.operands := by
  have hleads {done m v} (hm : Stands c (body bytes) w.fresh done m) (hv : v ∈ m.stack.values)
      (he : resolve c.scope m.heap v = .error err) : False := by
    obtain ⟨u, hu⟩ := hresolve done m hm v hv
    rw [hu] at he
    cases he
  cases h with
  | stream h =>
    cases h with
    | @instruction done i m _ _ hm hi hs =>
      cases (yields_step (ends_of_front hi)).of_error hs with
      | place he => exact absurd herr he.not_ofOperands
      | target _ hv he _ => exact (hleads hm (List.mem_of_getElem? hv) he).elim
      | operands _ hpos ht =>
        refine ⟨done, i, m, hi, hm, hs, hpos, hm.depth_eq ▸ ht.enough, ht.stack, ?_⟩
        rw [ht.stack, Stack.depth_drop, hm.depth_eq]
      | underflow _ _ | overflow _ _ _ => cases herr
    | unterminated _ _ | unknown _ => cases herr
  | count _ _ | value _ => cases herr
  | target hm hv he _ => exact (hleads hm (by rw [hv]; exact List.mem_singleton_self _) he).elim

end

theorem disciplined_of_yields {c : Context} {bytes : List UInt8} {w : Workspace}
    {a : Eval (Value × Nat)} (h : Yields (Halts c bytes w) (Results c bytes w) a w) :
    Disciplined c bytes w (a w) where
  fits r w' ha := by
    have hr := h.of_ok ha
    obtain ⟨m, hm, hd⟩ := hr.moment
    exact ⟨hm.fits, hm.depth_eq.symm.trans hd, by rw [hr.stack]; rfl⟩
  safe hfits hone err w' ha := not_ofDepth_of_halts hfits hone (h.of_error ha)
  bounded done m hm := ⟨hm.depth_eq, hm.depth_le⟩
  left := by
    unfold stateAfter
    cases ha : a w with
    | ok r w' =>
      rw [(h.of_ok ha).stack]
      exact Nat.zero_le _
    | error err w' => exact depth_le_of_halts (h.of_error ha)
  operands hresolve err w' ha herr := operands_of_halts hresolve (h.of_error ha) herr

/-- **The discipline of the stack holds for both evaluations**, whatever the stream, the scope, the
    capacity and the values that were there before. -/
theorem disciplined_evaluation (c : Context) (bytes : List UInt8) (w : Workspace) :
    Disciplined c bytes w (evaluate c bytes w) ∧ Disciplined c bytes w (evaluateTarget c bytes w) :=
  ⟨disciplined_of_yields (yields_evaluate c bytes w),
    disciplined_of_yields (yields_evaluateTarget c bytes w)⟩

/-- The index and the array are taken, and the value below them is left. -/
example :
    let c : Context :=
      { scope := ⟨[.int 7, .array [.int 1, .int 2, .int 3], .int 10], fun _ => none, #[],
          fun _ => .undefined⟩
        self := ⟨0, 0⟩
        iterators := [] }
    let bytes := encode [.pushConstant 0, .pushConstant 1, .pushConstant 2, .arrayElement]
    ∃ w', evaluate c bytes ⟨{ capacity := 8 }, {}⟩ = .error (.indexOutOfBounds 10 3) w'
      ∧ w'.stack.values = [.int 7] := ⟨_, rfl, rfl⟩

end InstrumentFlow.Expression
