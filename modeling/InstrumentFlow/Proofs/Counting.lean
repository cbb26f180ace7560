import InstrumentFlow.Bytecode.Assembler
import InstrumentFlow.Proofs.Counting.Amid
import InstrumentFlow.Proofs.Lasting
import InstrumentFlow.Proofs.Numeric.Wholes
import Mathlib.Data.Nat.Find

/-!
# Loops

A loop counts a local variable up to a limit. Each of its turns deals with one number: it sends a
pulse to its body, and the body triggers the next turn. What the loop must know by then it keeps in
the variable and in its progress.

* `Counting` -- a loop at its turns;
* `Counting.InPeace` -- after each pulse it is triggered again, and nobody else writes its variable;
* `Counting.Emits`, `Pulses`, `Finishes` -- what a turn may do;
* `first_turn`, `turn_pulses`, `turn_finishes` -- **one turn**;
* `LeftAlone.progress?`, `Pulses.carried` -- from one turn to the next;
* `lasts_iff`, `ends_iff` -- how long the turns go on;
* `CountsThrough` -- how a loop should count;
* `loop_counts` -- **what a loop counts**;
* `not_loop_counts_through` -- where it has nothing to count, it counts once.
-/

namespace InstrumentFlow

open Engine Numeric

/-! ## 1. Loops at their turns -/

/-- **A loop at its turns**: the program each time a task of the component is about to run. -/
structure Counting where
  definition : Definition
  handler : Handler
  instanceId : InstanceId
  component : Nat
  record : Component
  /-- The local variable that counts, and what the other properties of the component stand for. -/
  slot : Nat
  first : Int32
  limit : Int32
  stride : Int32
  turn : Nat → Engine
  resumes : Nat → Bool

namespace Counting

variable (d : Counting)

def task (k : Nat) : Task := ⟨d.instanceId, d.component, d.resumes k⟩

/-- The program in which the step of a turn begins. -/
def begun (k : Nat) : Engine := (d.turn k).beginStep (d.task k)

/-- There its progress is taken away for the duration of the step. -/
def opened (k : Nat) : Engine := (d.begun k).setProgress d.instanceId d.component none

/-- The step of a turn. -/
def step (k : Nat) : EStateM.Result FlowError Engine Step :=
  execute d.handler d.instanceId d.component d.record (d.begun k)

/-- The program after a turn. -/
def after (k : Nat) : Engine := (d.turn k).runTask d.handler (d.task k)

/-- What the variable holds in a program. -/
def held? (e : Engine) : Option Value := e.content? (.slot d.instanceId d.slot)

def progress? (e : Engine) : Option Progress := e.progress? d.instanceId d.component

/-- What the component keeps while it counts. -/
def counts : LoopProgress := ⟨.slot d.instanceId d.slot, .int d.limit, .int d.stride⟩

/-- **The numbers of the turns**, each of them the one before it with the stride added. They are
    numbers of 32 bits. -/
def number (d : Counting) : Nat → Int32
  | 0 => d.first
  | k + 1 => d.number k + d.stride

/-- **One pulse in a turn**: the variable holds a number, and from then until the end of the step
    all that happens is that a pulse goes out of an output. The step tells of no other. -/
structure Emits (k output : Nat) (n : Int32) (p : Option Progress) (e e' : Engine) : Prop where
  amid : Amid (d.begun k) e
  held : d.held? e = some (.int n)
  pulse : propagate d.instanceId d.component output .null e = .ok ⟨⟩ e'
  step : d.step k = .ok .completed e'
  emissions : e'.emissions = (d.instanceId, d.component, output) :: (d.turn k).emissions
  kept : d.held? e' = some (.int n)
  progress : d.progress? e' = p

/-- **A turn runs the body** with a number. -/
def Pulses (k : Nat) (n : Int32) : Prop :=
  ∃ e e', d.Emits k sequenceOutput n (some (.loop d.counts)) e e'

/-- **A turn ends the loop**: output 1 fires, and no progress is left. -/
def Finishes (k : Nat) (n : Int32) : Prop := ∃ e e', d.Emits k 1 n none e e'

/-- In all turns before this one the component sent a pulse out of its sequence output, and nothing
    else. -/
def Lasts (k : Nat) : Prop :=
  ∀ j < k, (stateAfter (d.step j)).emissions
    = (d.instanceId, d.component, sequenceOutput) :: (d.turn j).emissions

instance (k : Nat) : Decidable (d.Lasts k) :=
  inferInstanceAs (Decidable (∀ j < k, _ = _))

/-- The component at its place in a state of a run, with its variable. -/
structure Stands (e : Engine) : Prop where
  reached : Reached d.definition e
  record : e.componentOf? d.instanceId d.component = some d.record
  unfailed : ∀ s, e.instance? d.instanceId = some s → s.failed = false
  going : e.stopRequested = false
  isLocal : ∀ s, e.instance? d.instanceId = some s → s.inputCount ≤ d.slot
  isInt : ∃ n, d.held? e = some (.int n)

/-- The properties of the component, read one after the other: its first number, and what it
    keeps. -/
def readAll : Act (Value × LoopProgress) := do
  let destination ← evaluateProperty d.instanceId d.component 0 [] true
  let first ← evaluateProperty d.instanceId d.component 1 [] false
  let limit ← evaluateProperty d.instanceId d.component 2 [] false
  let step ← evaluateProperty d.instanceId d.component 3 [] false
  return (first, ⟨destination, limit, step⟩)

/-- **Left alone until its next turn**: the flows run on, and nothing happens that is the business
    of the component, until the turn of its next task comes. -/
def LeftAlone (k : Nat) : Prop :=
  ∃ e, Leaps False True True (d.after k) e
    ∧ Adds (Event.concerns d.instanceId d.component) (d.after k) e
    ∧ d.turn (k + 1) = e.takeTask (d.task (k + 1))

/-- **A loop in peace.** The component begins without progress. Each time it has sent a pulse to its
    body it is triggered again, and meanwhile nobody else has written its variable. Its progress is
    out of reach of the flows; a host that has a part in the run may touch it, and has not. -/
structure InPeace : Prop where
  kind : d.record.kind = .loop
  positive : 0 < d.stride
  stands : ∀ k, d.Lasts k → d.Stands (d.turn k)
  fresh : d.progress? (d.turn 0) = none
  reads : ∃ e, d.readAll (d.opened 0) = .ok (.int d.first, d.counts) e
  undisturbed : ∀ k, d.Lasts (k + 1) → d.held? (d.turn (k + 1)) = d.held? (d.after k)
  spared : ∀ k, d.Lasts (k + 1) →
    d.LeftAlone k ∨ d.progress? (d.turn (k + 1)) = d.progress? (d.after k)

variable {d} {k : Nat}

/-! ## 2. One turn -/

theorem Stands.begun (h : d.Stands (d.turn k)) : Reached d.definition (d.begun k) := by
  obtain ⟨hb, hleaps⟩ := h.reached
  exact ⟨hb, hleaps.tail (.beginStep id (d.task k))⟩

/-- In the middle of a step the program is in a state of its run. -/
theorem Stands.amid (h : d.Stands (d.turn k)) {e : Engine} (ha : Amid (d.begun k) e) :
    Reached d.definition e := by
  obtain ⟨hb, hleaps⟩ := h.begun
  exact ⟨hb, hleaps.trans (ha.strokes.paces.leaps fun h => h.elim)⟩

theorem Stands.kindOf?_begun (h : d.Stands (d.turn k)) (hk : d.record.kind = .loop) :
    (d.begun k).kindOf? d.instanceId d.component = some .loop := by
  have hrecord : (d.begun k).componentOf? d.instanceId d.component = some d.record := h.record
  unfold kindOf?
  rw [hrecord, Option.map_some, hk]

theorem amid_opened (d : Counting) (k : Nat) : Amid (d.begun k) (d.opened k) :=
  (Amid.refl (d.begun k)).checkOut

theorem held?_opened (d : Counting) (k : Nat) : d.held? (d.opened k) = d.held? (d.turn k) :=
  content?_setProgress (d.begun k) _ _ _ _ none

theorem checkOut_begun (d : Counting) (k : Nat) :
    checkOut d.instanceId d.component (d.begun k) = .ok (d.progress? (d.turn k)) (d.opened k) := rfl

/-- In the middle of a step the component has a place for its progress. -/
theorem Stands.hasComponent (h : d.Stands (d.turn k)) {e : Engine} (ha : Amid (d.begun k) e) :
    e.hasComponent d.instanceId d.component = true :=
  hasComponent_of_componentOf? (ha.strokes.inv h.begun.inv)
    ((componentOf?_calm ha.strokes.calm _ _).trans h.record)

/-- **A component that has put its variable and its progress right sends a pulse**, and with that
    its step is over. -/
theorem Stands.emits (h : d.Stands (d.turn k)) {e : Engine} (ha : Amid (d.begun k) e)
    {n : Int32} (hv : d.held? e = some (.int n)) {p : Option Progress}
    (hp : d.progress? e = p) (output : Nat)
    (hstep : d.step k = (propagate d.instanceId d.component output .null >>= fun _ =>
      pure .completed) e) : ∃ e', d.Emits k output n p e e' := by
  have hrecord : e.componentOf? d.instanceId d.component = some d.record :=
    (componentOf?_calm ha.strokes.calm _ _).trans h.record
  obtain ⟨e', hpulse, hsent⟩ :=
    (h.amid ha).sends (ha.stopRequested.trans h.going) hrecord output
  have hlocal (s : Instance) (hs : e.instance? d.instanceId = some s) : s.inputCount ≤ d.slot := by
    obtain ⟨s₀, hs₀, hframe⟩ := ha.strokes.calm.back hs
    rw [Instance.inputCount_of_frame hframe]
    exact h.isLocal s₀ hs₀
  obtain ⟨s, hs, _⟩ := Option.bind_eq_some_iff.mp hv
  refine ⟨e', ha, hv, hpulse, ?_, ?_, ?_, ?_⟩
  · rw [hstep, bind_of_ok hpulse]
    rfl
  · rw [hsent.emissions, ha.idles.emissions]
    rfl
  · exact (hsent.locals s _ hs (hlocal s hs)).trans hv
  · exact (hsent.progress _).trans hp

/-- **The body is run with a number**: the variable gets it, the progress is put back, and a pulse
    goes out. -/
theorem Stands.pulses (h : d.Stands (d.turn k)) (hk : d.record.kind = .loop) {e : Engine}
    (ha : Amid (d.begun k) e) {m : Int32} (hm : d.held? e = some (.int m)) (n : Int32)
    (hadProgress : Bool)
    (hstep : d.step k = (do
      assign d.instanceId d.component (.slot d.instanceId d.slot) (.int n)
      checkIn d.instanceId d.component hadProgress (some (.loop d.counts))
      pulse d.instanceId d.component
      return .completed : Act Step) e) : d.Pulses k n := by
  have hassign := ha.assign (i := d.instanceId) d.slot (.int n)
  generalize he₁ : (e.noteAssigned (.slot d.instanceId d.slot) (.int n)).writeSlot d.instanceId
    d.slot (.int n) = e₁ at hassign
  have hwritten : d.held? e₁ = some (.int n) := by
    rw [← he₁]
    exact content?_writeSlot (e := e.noteAssigned (.slot d.instanceId d.slot) (.int n)) hm (.int n)
  have hplace := h.hasComponent hassign
  have hsettle := hassign.settle (h.kindOf?_begun hk) hadProgress (p := some (.loop d.counts))
    fun q hq => by cases hq; exact ⟨rfl, rfl⟩
  refine ⟨_, h.emits hsettle ?_ (progress?_settleProgress hplace hadProgress _) sequenceOutput ?_⟩
  · exact (content?_settleProgress e₁ _ _ _ _ hadProgress _).trans hwritten
  · rw [hstep, bind_of_ok (assign_int hm d.component n), he₁]
    rfl

/-- **The first turn** runs the body with the first number, whatever the limit is. -/
theorem first_turn (hd : d.InPeace) : d.Pulses 0 d.first := by
  have hs := hd.stands 0 fun j hj => absurd hj (Nat.not_lt_zero j)
  have hi := hs.begun.inv
  obtain ⟨m, hm⟩ := hs.isInt
  obtain ⟨e₄, hread⟩ := hd.reads
  unfold readAll at hread
  obtain ⟨destination, e₁, h₁, hread⟩ := bind_eq_ok hread
  obtain ⟨first, e₂, h₂, hread⟩ := bind_eq_ok hread
  obtain ⟨limit, e₃, h₃, hread⟩ := bind_eq_ok hread
  obtain ⟨stride, _, h₄, hread⟩ := bind_eq_ok hread
  cases hread
  -- the properties are read after the progress is taken away
  obtain ⟨ha₁, hf₁⟩ := (d.amid_opened 0).evaluate hi h₁
  obtain ⟨ha₂, hf₂⟩ := ha₁.evaluate hi h₂
  obtain ⟨ha₃, hf₃⟩ := ha₂.evaluate hi h₃
  obtain ⟨ha₄, hf₄⟩ := ha₃.evaluate hi h₄
  have hheld : d.held? e₄ = some (.int m) := by
    refine (content?_of_forest (hf₄.trans (hf₃.trans (hf₂.trans hf₁))) _ _).trans ?_
    exact (d.held?_opened 0).trans hm
  refine hs.pulses hd.kind ha₄ hheld d.first false ?_
  unfold step execute
  rw [hd.kind]
  show stepLoop d.instanceId d.component (d.begun 0) = _
  unfold stepLoop
  rw [bind_of_ok (d.checkOut_begun 0), hd.fresh]
  show beginLoop d.instanceId d.component (d.opened 0) = _
  unfold beginLoop
  rw [bind_of_ok h₁, bind_of_ok h₂, bind_of_ok h₃, bind_of_ok h₄]
  rfl

/-- Whether the end is reached is decided in 64-bit numbers, which hold all integers of 32 bits. -/
theorem lessOrEqual_int (a b : Int32) :
    (Value.int a).toDouble.lessOrEqual (Value.int b).toDouble = decide (a ≤ b) := by
  have hbound (a : Int32) : a.toInt.natAbs < twoTo 53 := by
    have hlow := a.le_toInt
    have hhigh := a.toInt_lt
    have htop : twoTo 53 = 2 ^ 53 := rfl
    omega
  refine (lessOrEqual_ofInt (hbound a) (hbound b)).trans ?_
  rw [decide_eq_decide, Int32.le_iff_toInt_le]

section

variable (hd : d.InPeace) (h : d.Stands (d.turn k)) {n : Int32}
  (hn : d.held? (d.turn k) = some (.int n))
  (hp : d.progress? (d.turn k) = some (.loop d.counts))
include hd hn hp

/-- The step of a later turn, from where its progress was taken away. -/
theorem step_again : d.step k = (if d.limit ≤ n + d.stride then do
      checkIn d.instanceId d.component true none
      propagate d.instanceId d.component 1 .null
      return .completed
    else do
      assign d.instanceId d.component (.slot d.instanceId d.slot) (.int (n + d.stride))
      checkIn d.instanceId d.component true (some (.loop d.counts))
      pulse d.instanceId d.component
      return .completed : Act Step) (d.opened k) := by
  have hread : resolved .readValue (.slot d.instanceId d.slot) (d.opened k)
      = .ok (.int n) (d.opened k) := by
    obtain ⟨s, hs, hget⟩ := Option.bind_eq_some_iff.mp ((d.held?_opened k).trans hn)
    unfold resolved Expression.resolve Engine.scope
    simp only [get_bind_apply, hs, Option.map_some, Option.bind_some, hget]
    rfl
  have hadd : Expression.arithmetic .add (.int n) (.int d.stride) = .ok (.int (n + d.stride)) := rfl
  unfold step execute
  rw [hd.kind]
  show stepLoop d.instanceId d.component (d.begun k) = _
  unfold stepLoop
  rw [bind_of_ok (d.checkOut_begun k), hp]
  show advanceLoop d.instanceId d.component d.counts (d.opened k) = _
  unfold advanceLoop counts
  rw [bind_of_ok hread]
  simp only [hadd, lessOrEqual_int, decide_eq_true_eq]

include h in
/-- **A later turn runs the body** with the next number, where that is below the limit. -/
theorem turn_pulses (hlt : ¬ d.limit ≤ n + d.stride) : d.Pulses k (n + d.stride) := by
  refine h.pulses hd.kind (d.amid_opened k) ((d.held?_opened k).trans hn) _ true ?_
  rw [step_again hd hn hp, if_neg hlt]

include h in
/-- **A later turn ends the loop** where the next number is not below the limit. -/
theorem turn_finishes (hle : d.limit ≤ n + d.stride) : d.Finishes k n := by
  have hsettle := (d.amid_opened k).settle (h.kindOf?_begun hd.kind) true
    (p := none) fun q hq => nomatch hq
  have hplace := h.hasComponent (d.amid_opened k)
  refine ⟨_, h.emits hsettle ?_ (progress?_settleProgress hplace true none) 1 ?_⟩
  · refine (content?_settleProgress _ _ _ _ _ true none).trans ?_
    exact (d.held?_opened k).trans hn
  · rw [step_again hd hn hp, if_pos hle]
    rfl

end

/-! ## 3. All turns -/

theorem Lasts.earlier {j : Nat} (h : d.Lasts k) (hj : j ≤ k) : d.Lasts j :=
  fun m hm => h m (Nat.lt_of_lt_of_le hm hj)

theorem lasts_zero (d : Counting) : d.Lasts 0 := fun j hj => absurd hj (Nat.not_lt_zero j)

section

variable {n : Int32}

theorem Emits.sent {output : Nat} {p : Option Progress} {e e' : Engine}
    (h : d.Emits k output n p e e') : (stateAfter (d.step k)).emissions
      = (d.instanceId, d.component, output) :: (d.turn k).emissions := by
  rw [h.step]
  exact h.emissions

theorem Pulses.lasts (h : d.Pulses k n) (hl : d.Lasts k) : d.Lasts (k + 1) := by
  obtain ⟨e, e', he⟩ := h
  intro j hj
  rcases Nat.lt_succ_iff_lt_or_eq.mp hj with hlt | rfl
  · exact hl j hlt
  · exact he.sent

theorem Finishes.not_lasts (h : d.Finishes k n) : ¬ d.Lasts (k + 1) := by
  obtain ⟨e, e', he⟩ := h
  intro hl
  have hsame := he.sent.symm.trans (hl k (Nat.lt_succ_self k))
  injection hsame with hfirst
  injection hfirst with _ houtput
  injection houtput with _ houtput
  cases houtput

theorem Emits.strokes {output : Nat} {p : Option Progress} {e e' : Engine}
    (h : d.Emits k output n p e e') (hs : d.Stands (d.turn k)) :
    Strokes False anybody (d.begun k) e' :=
  ((upholds_propagate hs.begun.inv h.amid.strokes d.instanceId d.component output .null).of_ok
    h.pulse).1

/-- After a turn in which a pulse was sent the step has ended, and what is left is tidied up. -/
theorem Emits.after {output : Nat} {p : Option Progress} {e e' : Engine}
    (h : d.Emits k output n p e e') (hs : d.Stands (d.turn k)) :
    Inv False (e'.endStep d.instanceId d.component false)
    ∧ d.after k = (e'.endStep d.instanceId d.component false).tidy d.instanceId d.component := by
  have hi := (h.strokes hs).inv hs.begun.inv
  refine ⟨(touches_endStep hi _ _ false).inv hi, ?_⟩
  obtain ⟨s, hs₀, _⟩ := Option.bind_eq_some_iff.mp hs.record
  have hrun : d.after k = (settleOutcome d.instanceId d.component (d.step k)).tidy d.instanceId
      d.component :=
    runTask_of_live (t := d.task k) d.handler hs₀ (hs.unfailed s hs₀) hs.record
  rw [hrun, h.step]
  rfl

/-- **What leaves a loop alone leaves it its progress.** -/
theorem LeftAlone.progress? (h : d.LeftAlone k) (hk : d.record.kind = .loop)
    (hi : Inv False (d.after k)) (hs : d.Stands (d.turn (k + 1))) :
    d.progress? (d.turn (k + 1)) = d.progress? (d.after k) := by
  obtain ⟨e, hleaps, halone, hturn⟩ := h
  rw [hturn] at hs ⊢
  have hkind : e.kindOf? d.instanceId d.component = some .loop := by
    unfold kindOf?
    rw [show e.componentOf? d.instanceId d.component = some d.record from hs.record,
      Option.map_some, hk]
  have hl : e.instance? d.instanceId ≠ none := by
    obtain ⟨s, hs₀, _⟩ := Option.bind_eq_some_iff.mp hs.record
    exact Option.ne_none_iff_exists'.mpr ⟨s, hs₀⟩
  have hcatch : ¬ e.catches d.instanceId d.component := fun h => nomatch hkind.symm.trans h
  rcases (hleaps.unmoved hi halone hcatch hl).progress? with ⟨s, hs₀, hfailed⟩ | hsame
  · exact absurd hfailed (Bool.eq_false_iff.mp (hs.unfailed s hs₀))
  · exact hsame

/-- **From a pulse to the next turn** the variable keeps its number and the component its
    progress. -/
theorem Pulses.carried (hd : d.InPeace) (h : d.Pulses k n) (hl : d.Lasts (k + 1)) :
    d.held? (d.turn (k + 1)) = some (.int n)
    ∧ d.progress? (d.turn (k + 1)) = some (.loop d.counts) := by
  obtain ⟨e, e', he⟩ := h
  have hs := hd.stands k (hl.earlier (Nat.le_succ k))
  have hheld := hd.undisturbed k hl
  obtain ⟨hi, hafter⟩ := he.after hs
  -- the variable of the next turn is there, so that the instance was not freed
  have hlive : (d.after k).instance? d.instanceId ≠ none := by
    intro hnone
    obtain ⟨m, hm⟩ := (hd.stands (k + 1) hl).isInt
    rw [hheld] at hm
    unfold held? at hm
    rw [content?_slot, hnone] at hm
    cases hm
  rw [hafter] at hlive
  obtain ⟨hlocals, hkept⟩ := kept_tidy hi hlive
  have hprogress : d.progress? (d.turn (k + 1)) = d.progress? (d.after k) := by
    rcases hd.spared k hl with halone | hsame
    · refine halone.progress? hd.kind ?_ (hd.stands (k + 1) hl)
      have htidy : Paces False nobody _ (d.after k) := hafter ▸ paces_tidy hi .refl _ _
      exact (htidy.course hi).inv hi
    · exact hsame
  rw [hafter] at hheld hprogress
  obtain ⟨s, hs', _⟩ := Option.bind_eq_some_iff.mp he.kept
  have hlocal : s.inputCount ≤ d.slot := by
    obtain ⟨s₀, hs₀, hframe⟩ := (he.strokes hs).calm.back hs'
    rw [Instance.inputCount_of_frame hframe]
    exact hs.isLocal s₀ hs₀
  exact ⟨hheld.trans ((hlocals s _ hs' hlocal).trans he.kept),
    hprogress.trans ((hkept _).trans he.progress)⟩

end

/-- As long as the loop lasts its turns run the body with their numbers. -/
theorem pulses_of_lasts (hd : d.InPeace) (h : d.Lasts (k + 1)) : d.Pulses k (d.number k) := by
  induction k with
  | zero => exact first_turn hd
  | succ k ih =>
    have hl := h.earlier (Nat.le_succ (k + 1))
    obtain ⟨hn, hp⟩ := (ih hl).carried hd hl
    by_cases hle : d.limit ≤ d.number k + d.stride
    · exact absurd h (turn_finishes hd (hd.stands _ hl) hn hp hle).not_lasts
    · exact turn_pulses hd (hd.stands _ hl) hn hp hle

/-- **A turn that comes** runs the body with its number if it is the first, or if the number is
    below the limit. -/
theorem Lasts.pulses (hd : d.InPeace) (h : d.Lasts k) (hlt : k = 0 ∨ d.number k < d.limit) :
    d.Pulses k (d.number k) := by
  cases k with
  | zero => exact first_turn hd
  | succ k =>
    obtain ⟨hn, hp⟩ := (pulses_of_lasts hd h).carried hd h
    have hbelow := hlt.resolve_left (Nat.succ_ne_zero k)
    exact turn_pulses hd (hd.stands _ h) hn hp (Int32.not_le.mpr hbelow)

/-- **Every other turn that comes** ends the loop. -/
theorem Lasts.finishes (hd : d.InPeace) (h : d.Lasts (k + 1)) (hle : d.limit ≤ d.number (k + 1)) :
    d.Finishes (k + 1) (d.number k) := by
  obtain ⟨hn, hp⟩ := (pulses_of_lasts hd h).carried hd h
  exact turn_finishes hd (hd.stands _ h) hn hp hle

/-- **How long a loop lasts**: until a number after the first one is not below the limit. -/
theorem lasts_iff (hd : d.InPeace) : d.Lasts k ↔ ∀ j < k, j = 0 ∨ d.number j < d.limit := by
  constructor
  · intro h j hj
    cases j with
    | zero => exact .inl rfl
    | succ j =>
      refine .inr (Int32.not_le.mp fun hle => ?_)
      exact ((h.earlier (Nat.le_of_lt hj)).finishes hd hle).not_lasts (h.earlier hj)
  · intro h
    induction k with
    | zero => exact lasts_zero d
    | succ k ih =>
      have hl := ih fun j hj => h j (Nat.lt_succ_of_lt hj)
      exact (hl.pulses hd (h k (Nat.lt_succ_self k))).lasts hl

/-- **Which loops end.** -/
theorem ends_iff (hd : d.InPeace) :
    (∃ k v, d.Lasts k ∧ d.Finishes k v) ↔ ∃ k, d.limit ≤ d.number (k + 1) := by
  constructor
  · rintro ⟨k, v, hl, hends⟩
    cases k with
    | zero => exact absurd ((first_turn hd).lasts hl) hends.not_lasts
    | succ k =>
      refine ⟨k, Int32.not_lt.mp fun hlt => hends.not_lasts ?_⟩
      exact (hl.pulses hd (.inr hlt)).lasts hl
  · intro h
    have hl : d.Lasts (Nat.find h + 1) := by
      refine (lasts_iff hd).mpr fun j hj => ?_
      cases j with
      | zero => exact .inl rfl
      | succ j => exact .inr (Int32.not_le.mp (Nat.find_min h (Nat.lt_of_succ_lt_succ hj)))
    exact ⟨_, _, hl, hl.finishes hd (Nat.find_spec h)⟩

/-! ## 4. Exact numbers -/

theorem toInt_pos {s : Int32} (hs : 0 < s) : 0 < s.toInt := Int32.lt_iff_toInt_lt.mp hs

/-- A sum of 32 bits with something positive is exact, or it wraps and is the smaller one. -/
theorem toInt_add_cases (a : Int32) {s : Int32} (hs : 0 < s) :
    a.toInt + s.toInt < twoTo 31 ∧ (a + s).toInt = a.toInt + s.toInt
    ∨ twoTo 31 ≤ a.toInt + s.toInt ∧ a + s < a := by
  have hpos := toInt_pos hs
  have ha := a.le_toInt
  have ha' := a.toInt_lt
  have hs' := s.toInt_lt
  rw [Int32.lt_iff_toInt_lt, Int32.toInt_add, Int.bmod_def]
  have hreach : (twoTo 31 : Int) = 2 ^ 31 := rfl
  rcases Int.lt_or_le (a.toInt + s.toInt) (twoTo 31) with hfits | hwraps
  · refine .inl ⟨hfits, ?_⟩
    split <;> omega
  · refine .inr ⟨hwraps, ?_⟩
    split <;> omega

/-- The number of a turn, without any bound. -/
def unbounded (d : Counting) (k : Nat) : Int := d.first.toInt + k * d.stride.toInt

theorem unbounded_zero (d : Counting) : d.unbounded 0 = d.first.toInt := by simp [unbounded]

theorem unbounded_succ (d : Counting) (k : Nat) :
    d.unbounded (k + 1) = d.unbounded k + d.stride.toInt := by
  unfold unbounded
  rw [Int.natCast_succ, Int.add_mul, Int.one_mul, Int.add_assoc]

theorem unbounded_mono (hpos : 0 < d.stride) {j : Nat} (hj : j ≤ k) :
    d.unbounded j ≤ d.unbounded k := by
  have hmul := Int.mul_le_mul_of_nonneg_right (Int.ofNat_le.mpr hj) (Int.le_of_lt (toInt_pos hpos))
  exact Int.add_le_add_left hmul _

/-- The numbers are exact as long as they fit 32 bits. -/
theorem toInt_number (hpos : 0 < d.stride) (h : d.unbounded k < twoTo 31) :
    (d.number k).toInt = d.unbounded k := by
  induction k with
  | zero => exact d.unbounded_zero.symm
  | succ k ih =>
    have hk := ih (Int.lt_of_le_of_lt (unbounded_mono hpos (Nat.le_succ k)) h)
    rw [unbounded_succ, ← hk] at h ⊢
    rcases toInt_add_cases (d.number k) hpos with ⟨_, hexact⟩ | ⟨hwraps, _⟩
    · exact hexact
    · exact absurd h (Int.not_lt.mpr hwraps)

/-- **A loop that counts as it should**: it runs the body once with each of the numbers below the
    limit, in increasing order, and then ends. -/
structure CountsThrough (d : Counting) (n : Nat) : Prop where
  below : ∀ k < n, d.unbounded k < d.limit.toInt
  pulses : ∀ k < n, ∃ v : Int32, v.toInt = d.unbounded k ∧ d.Pulses k v
  reached : d.limit.toInt ≤ d.unbounded n
  finishes : ∃ v, d.Finishes n v

/-- A turn runs the body with one number. -/
theorem Pulses.unique {v w : Int32} (h : d.Pulses k v) (h' : d.Pulses k w) : v = w := by
  obtain ⟨e, e', he⟩ := h
  obtain ⟨a, a', ha⟩ := h'
  have hsame := he.step.symm.trans ha.step
  injection hsame with _ hsame
  have hkept := he.kept
  rw [hsame, ha.kept] at hkept
  injection hkept with hkept
  injection hkept with hkept
  exact hkept.symm

/-- **Where the limit is met without wrapping**, the loop counts as it should. -/
theorem countsThrough (hd : d.InPeace) {n : Nat} (hfirst : d.first < d.limit)
    (hreached : d.limit.toInt ≤ d.unbounded n) (hfits : d.unbounded n < twoTo 31)
    (hbelow : ∀ k < n, d.unbounded k < d.limit.toInt) : d.CountsThrough n := by
  have hnumber (k : Nat) (hk : k ≤ n) : (d.number k).toInt = d.unbounded k :=
    toInt_number hd.positive (Int.lt_of_le_of_lt (unbounded_mono hd.positive hk) hfits)
  have hlt (k : Nat) (hk : k < n) : d.number k < d.limit := by
    rw [Int32.lt_iff_toInt_lt, hnumber k (Nat.le_of_lt hk)]
    exact hbelow k hk
  have hlasts : d.Lasts n := (lasts_iff hd).mpr fun j hj => .inr (hlt j hj)
  refine ⟨hbelow, fun k hk => ⟨d.number k, hnumber k (Nat.le_of_lt hk),
    (hlasts.earlier (Nat.le_of_lt hk)).pulses hd (.inr (hlt k hk))⟩, hreached, ?_⟩
  cases n with
  | zero =>
    rw [unbounded_zero, ← Int32.le_iff_toInt_le] at hreached
    exact absurd hfirst (Int32.not_lt.mpr hreached)
  | succ n =>
    refine ⟨_, hlasts.finishes hd ?_⟩
    rw [Int32.le_iff_toInt_le, hnumber _ (Nat.le_refl _)]
    exact hreached

/-- **Where the loop counts as it should**, it has met its limit without wrapping. -/
theorem CountsThrough.fits (hd : d.InPeace) {n : Nat} (h : d.CountsThrough n) :
    d.first < d.limit ∧ d.unbounded n < twoTo 31 := by
  obtain ⟨v, hends⟩ := h.finishes
  cases n with
  | zero => exact absurd ((first_turn hd).lasts d.lasts_zero) hends.not_lasts
  | succ n =>
    have hzero := h.below 0 (Nat.succ_pos n)
    rw [unbounded_zero, ← Int32.lt_iff_toInt_lt] at hzero
    have hlasts : d.Lasts (n + 1) := by
      intro j hj
      obtain ⟨w, _, _, _, he⟩ := h.pulses j hj
      exact he.sent
    obtain ⟨w, hw, hpulses⟩ := h.pulses n (Nat.lt_succ_self n)
    have hlast : (d.number n).toInt = d.unbounded n := by
      rw [(pulses_of_lasts hd hlasts).unique hpulses, hw]
    -- the turn that ends the loop would have run the body if its number were below the limit
    have hle : d.limit ≤ d.number (n + 1) := by
      by_contra hlt
      exact hends.not_lasts ((hlasts.pulses hd (.inr (Int32.not_le.mp hlt))).lasts hlasts)
    refine ⟨hzero, ?_⟩
    rw [unbounded_succ, ← hlast]
    rcases toInt_add_cases (d.number n) hd.positive with ⟨hfits, _⟩ | ⟨_, hwrapped⟩
    · exact hfits
    · have hbelow := h.below n (Nat.lt_succ_self n)
      rw [← hlast, ← Int32.lt_iff_toInt_lt] at hbelow
      exact absurd (Int32.lt_of_le_of_lt hle hwrapped) (Int32.not_lt.mpr (Int32.le_of_lt hbelow))

end Counting

/-! ## 5. All loops -/

/-- **What a loop counts.** For every loop in peace, every first number, every limit, every stride
    that is positive, and whatever its body does meanwhile:

    * the first turn runs the body with the first number, also where that is not below the limit;
    * a later turn runs it, once, with its number where that is below the limit, and otherwise fires
      output 1, once, and leaves no progress;
    * so the turns come to an end just if a number after the first one, with sums that wrap, is not
      below the limit;
    * and the loop counts through the exact numbers below the limit just if there are any and the
      first number that is not below the limit fits 32 bits. -/
theorem loop_counts (d : Counting) (hd : d.InPeace) :
    (∀ k, d.Lasts k → k = 0 ∨ d.number k < d.limit → d.Pulses k (d.number k))
    ∧ (∀ k, d.Lasts (k + 1) → d.limit ≤ d.number (k + 1) → d.Finishes (k + 1) (d.number k))
    ∧ (∀ k, d.Lasts k ↔ ∀ j < k, j = 0 ∨ d.number j < d.limit)
    ∧ ((∃ k v, d.Lasts k ∧ d.Finishes k v) ↔ ∃ k, d.limit ≤ d.number (k + 1))
    ∧ ((∃ n, d.CountsThrough n)
      ↔ d.first < d.limit ∧ ∃ n, d.limit.toInt ≤ d.unbounded n ∧ d.unbounded n < twoTo 31) := by
  refine ⟨fun k hk => hk.pulses hd, fun k hk => hk.finishes hd, fun k => Counting.lasts_iff hd,
    Counting.ends_iff hd, ?_, ?_⟩
  · rintro ⟨n, hn⟩
    obtain ⟨hfirst, hfits⟩ := hn.fits hd
    exact ⟨hfirst, n, hn.reached, hfits⟩
  · rintro ⟨hfirst, hmet⟩
    -- the first number that is not below the limit fits if any does
    have hleast : ∃ n, d.limit.toInt ≤ d.unbounded n := hmet.imp fun n hn => hn.1
    obtain ⟨m, _, hfits⟩ := hmet
    have hm : Nat.find hleast ≤ m := Nat.find_min' hleast ‹_›
    refine ⟨Nat.find hleast, Counting.countsThrough hd hfirst (Nat.find_spec hleast) ?_ ?_⟩
    · exact Int.lt_of_le_of_lt (Counting.unbounded_mono hd.positive hm) hfits
    · intro k hk
      exact Int.not_le.mp (Nat.find_min hleast hk)

/-! ## 6. A loop and its body -/

/-- A loop whose body logs the variable, and which logs its end. -/
def repeatDefinition (first limit stride : Int32) : Definition :=
  { constants := [.undefined, .null, .int first, .int limit, .int stride, .string "finished"]
    flows := [{
      name := "main", inputFlags := [1, 1, 1], locals := [.int (-1)]
      components :=
        [{ kind := .start, outputs := [{ isSequence := true, connections := [⟨1, 0, true⟩] }] },
         { kind := .loop, inputs := [0]
           properties :=
            [⟨(({} : Bytecode.Assembler).local 0).finish⟩,
             ⟨(({} : Bytecode.Assembler).constant 2).finish⟩,
             ⟨(({} : Bytecode.Assembler).constant 3).finish⟩,
             ⟨(({} : Bytecode.Assembler).constant 4).finish⟩]
           outputs := [{ isSequence := true, connections := [⟨2, 1, true⟩] },
             { connections := [⟨3, 2, true⟩] }] },
         { kind := .log, inputs := [1]
           properties := [⟨(({} : Bytecode.Assembler).local 0).finish⟩]
           outputs := [{ isSequence := true, connections := [⟨1, 0, true⟩] }] },
         { kind := .log, inputs := [2]
           properties := [⟨(({} : Bytecode.Assembler).constant 5).finish⟩] }] }] }

/-- The program after so many ticks. -/
def repeating (first limit stride : Int32) (ticks : Nat) : Engine :=
  (built (repeatDefinition first limit stride) {} .absent {}).after
    (.order ⟨.startFlow 0, none⟩ :: List.replicate ticks (.tick none))

theorem repeating_succ (first limit stride : Int32) (ticks : Nat) :
    repeating first limit stride (ticks + 1)
      = ((repeating first limit stride ticks).tick handler none).2 := by
  unfold repeating after
  rw [List.replicate_succ', ← List.cons_append, List.foldl_append]
  rfl

/-- After the turn of the only task its tick goes on by leaps. -/
theorem leaps_afterTurn {e : Engine} {t : Task} (hq : e.queue.tasks = [t])
    (hd : e.debugger = none) (hone : (e.tick handler none).1.executed = 1)
    (hi : Inv False ((e.takeTask t).runTask handler t)) :
    Leaps False True True ((e.takeTask t).runTask handler t) (e.tick handler none).2 := by
  have hsize : e.queue.size = 0 + 1 := congrArg List.length hq
  have hblocks : (e.debuggerBlocks t).2 = e := by
    unfold debuggerBlocks
    rw [hd]
  unfold tick at hone ⊢
  split at hone
  · next hgo =>
    rw [if_pos hgo, hsize]
    rw [hsize] at hone
    cases headway handler 0 none {} e with
    | rest report' hx _ hr =>
      rw [hr] at hone
      exact absurd (hx.symm.trans hone) Nat.zero_ne_one
    | drop _ _ hr | hold _ hr =>
      rw [hr] at hone
      exact absurd hone Nat.zero_ne_one
    | run _ hq' _ hr =>
      obtain ⟨rfl, _⟩ := List.cons.inj (hq'.symm.trans hq)
      rw [hblocks] at hr
      rcases hr with ⟨_, hr⟩ | hr
      · rw [hr]
        exact leaps_endTick hi (leaps_debugger .refl hi (some .paused) _ _) _
      · rw [hr]
        exact leaps_endTick hi .refl _
  · exact absurd hone Nat.zero_ne_one

/-- Its loop, whose turn comes in every other tick. -/
def repetition (first limit stride : Int32) : Counting where
  definition := repeatDefinition first limit stride
  handler := handler
  instanceId := ⟨0, 0⟩
  component := 1
  record := ((repeatDefinition first limit stride).component? 0 1).getD { kind := .loop }
  slot := 3
  first := first
  limit := limit
  stride := stride
  turn k := (repeating first limit stride (1 + 2 * k)).takeTask ⟨⟨0, 0⟩, 1, false⟩
  resumes _ := false

/-- Whether an activity ended with that result. -/
def resultIs {α : Type} [DecidableEq α] (r : α) : EStateM.Result FlowError Engine α → Bool
  | .ok r' _ => r' = r
  | .error _ _ => false

theorem resultIs_iff {α : Type} [DecidableEq α] {r : α} {x : EStateM.Result FlowError Engine α} :
    resultIs r x = true ↔ ∃ e, x = .ok r e := by
  cases x with
  | ok r' e => simp [resultIs]
  | error err e => simp [resultIs]

/-- What of the peace of the loop can be computed as it begins. -/
def repetitionBegins (first limit stride : Int32) : Bool :=
  let d := repetition first limit stride
  d.progress? (d.turn 0) = none && resultIs (.int first, d.counts) (d.readAll (d.opened 0))

/-- What of it can be computed turn by turn. -/
def repetitionCalm (first limit stride : Int32) (k : Nat) : Bool :=
  let d := repetition first limit stride
  let e := d.turn k
  (repeating first limit stride (1 + 2 * k)).queue.tasks = [⟨⟨0, 0⟩, 1, false⟩]
    && e.componentOf? ⟨0, 0⟩ 1 = some d.record
    && (e.instance? ⟨0, 0⟩).all (fun s => !s.failed && s.inputCount ≤ 3)
    && !e.stopRequested
    && (d.held? e).any (fun v => v = .int v.toInt32)
    && d.held? (d.turn (k + 1)) = d.held? (d.after k)
    && (repeating first limit stride (1 + 2 * k)).debugger = none
    && ((repeating first limit stride (1 + 2 * k)).tick handler none).1.executed = 1
    && (repeating first limit stride (3 + 2 * k)).journal.countP (Event.concerns ⟨0, 0⟩ 1)
      = (d.after k).journal.countP (Event.concerns ⟨0, 0⟩ 1)

/-- Between two turns of the loop only its body has a turn. -/
theorem leftAlone_repetition {first limit stride : Int32} {k : Nat}
    (hd : (repeatDefinition first limit stride).Hostless)
    (h : (repetition first limit stride).Stands ((repetition first limit stride).turn k))
    (hq : (repeating first limit stride (1 + 2 * k)).queue.tasks = [⟨⟨0, 0⟩, 1, false⟩])
    (hdebugger : (repeating first limit stride (1 + 2 * k)).debugger = none)
    (hone : ((repeating first limit stride (1 + 2 * k)).tick handler none).1.executed = 1)
    (hcount : (repeating first limit stride (3 + 2 * k)).journal.countP (Event.concerns ⟨0, 0⟩ 1)
      = ((repetition first limit stride).after k).journal.countP (Event.concerns ⟨0, 0⟩ 1)) :
    (repetition first limit stride).LeftAlone k := by
  have hhostless : ((repetition first limit stride).turn k).definition.Hostless := by
    rw [h.reached.definition]
    exact hd
  have hrun := course_runTask h.reached.inv hhostless handler ⟨⟨0, 0⟩, 1, false⟩
  have hafter : Inv False ((repetition first limit stride).after k) := hrun.inv h.reached.inv
  have hbody : Leaps False True True ((repetition first limit stride).after k)
      ((repeating first limit stride (1 + 2 * k)).tick handler none).2 :=
    leaps_afterTurn hq hdebugger hone hafter
  have hnext := leaps_tick (handlerLeaps_handler False) hafter
    (fun _ => (hrun.changes h.reached.inv).definition ▸ hhostless) id hbody none
  rw [← repeating_succ, ← repeating_succ, show 1 + 2 * k + 1 + 1 = 3 + 2 * k by omega] at hnext
  refine ⟨_, hnext, .of_countP ((hnext.course hafter).changes hafter).journal hcount, ?_⟩
  show (repeating first limit stride (1 + 2 * (k + 1))).takeTask _ = _
  rw [show 1 + 2 * (k + 1) = 3 + 2 * k by omega]
  rfl

theorem inPeace_repetition {first limit stride : Int32} {n : Nat} (hpos : 0 < stride)
    (hd : (repeatDefinition first limit stride).Hostless)
    (hb : build (repeatDefinition first limit stride) {} .absent {}
      = .ok (built (repeatDefinition first limit stride) {} .absent {}))
    (hends : ¬ (repetition first limit stride).Lasts (n + 1))
    (hbegins : repetitionBegins first limit stride = true)
    (hcalm : ∀ k ≤ n, repetitionCalm first limit stride k = true) :
    (repetition first limit stride).InPeace := by
  have hchecks (k : Nat) (h : (repetition first limit stride).Lasts k) :=
    hcalm k (Nat.le_of_not_lt fun hlt => hends (h.earlier hlt))
  simp only [repetitionCalm, Bool.and_eq_true, decide_eq_true_eq] at hchecks
  simp only [repetitionBegins, Bool.and_eq_true, decide_eq_true_eq] at hbegins
  obtain ⟨hfresh, hread⟩ := hbegins
  have hstands (k : Nat) (h : (repetition first limit stride).Lasts k) :
      (repetition first limit stride).Stands ((repetition first limit stride).turn k) := by
    obtain ⟨⟨⟨⟨⟨⟨⟨⟨htasks, hrecord⟩, hinstance⟩, hgoing⟩, hint⟩, _⟩, _⟩, _⟩, _⟩ := hchecks k h
    obtain ⟨hb, hleaps⟩ := reached_after hb
      (.order ⟨.startFlow 0, none⟩ :: List.replicate (1 + 2 * k) (.tick none))
    have hall (s : Instance)
        (hs : ((repetition first limit stride).turn k).instance? ⟨0, 0⟩ = some s) :
        s.failed = false ∧ s.inputCount ≤ 3 := by
      rw [hs] at hinstance
      simpa using hinstance
    refine ⟨⟨hb, hleaps.tail (.take id htasks)⟩, hrecord, fun s hs => (hall s hs).1,
      by simpa using hgoing, fun s hs => (hall s hs).2, ?_⟩
    cases hv : (repetition first limit stride).held? ((repetition first limit stride).turn k) with
    | none =>
      rw [hv] at hint
      cases hint
    | some v =>
      rw [hv] at hint
      exact ⟨v.toInt32, congrArg some (of_decide_eq_true hint)⟩
  refine ⟨rfl, hpos, hstands, hfresh, resultIs_iff.mp hread, fun k h => ?_, fun k h => ?_⟩
  · obtain ⟨⟨⟨⟨_, hheld⟩, _⟩, _⟩, _⟩ := hchecks k (h.earlier (Nat.le_succ k))
    exact hheld
  · have hk := h.earlier (Nat.le_succ k)
    obtain ⟨⟨⟨⟨⟨⟨⟨⟨htasks, _⟩, _⟩, _⟩, _⟩, _⟩, hdebugger⟩, hone⟩, hcount⟩ := hchecks k hk
    exact .inl (leftAlone_repetition hd (hstands k hk) htasks hdebugger hone hcount)

/-- What a program has logged, the latest first. -/
def logged (e : Engine) : List LogEntry :=
  e.journal.filterMap fun
    | .logged _ _ entry => some entry
    | _ => none

/-- A loop from 0 up to 2 runs its body with 0 and with 1. -/
theorem loop_counts_repetition :
    (repetition 0 2 1).InPeace ∧ (∃ n, (repetition 0 2 1).CountsThrough n)
    ∧ logged (repeating 0 2 1 7) = [.info "finished", .info "1", .info "0"] := by
  have hpeace : (repetition 0 2 1).InPeace :=
    inPeace_repetition (n := 2) (by decide) (by decide +kernel) rfl (by decide +kernel)
      (by decide +kernel) (by decide +kernel)
  obtain ⟨_, _, _, _, hcounts⟩ := loop_counts (repetition 0 2 1) hpeace
  exact ⟨hpeace, hcounts.mpr ⟨by decide, 2, by decide, by decide⟩, by decide +kernel⟩

/-- **Not every loop counts as it should**: from 3 up to 3 there is no number below the limit, and
    yet the body is run. -/
theorem not_loop_counts_through : ¬ ∀ d : Counting, d.InPeace → ∃ n, d.CountsThrough n := by
  have hpeace : (repetition 3 3 1).InPeace :=
    inPeace_repetition (n := 1) (by decide) (by decide +kernel) rfl (by decide +kernel)
      (by decide +kernel) (by decide +kernel)
  intro h
  obtain ⟨n, hn⟩ := h _ hpeace
  exact absurd (hn.fits hpeace).1 (by decide)

/-- A number that would not fit wraps, and the limit is missed. -/
example : (repetition 2147483646 2147483647 2).number 1 = -2147483648 := by decide

end InstrumentFlow
