import InstrumentFlow.Proofs.Dialogue.Turn
import InstrumentFlow.Proofs.Expression.Readers
import InstrumentFlow.Proofs.Programs.Parts

/-!
# Programs are walked as they were written

An SCPI component goes through the payload that its builder has written. It meets the parts that
were written, in their order and with their texts and streams, and after them the end, over as many
turns as its requests take.

* `goThrough` -- what a component does at a part, said without its payload;
* `runPart_payloadOf`, `runPart_end` -- **at the place of a part** it does that;
* `Advances`, `yields_goThrough` -- and comes to the next place;
* `Walked`, `walked_payloadOf` -- the parts that were gone through, over all turns;
* `TurnLeaves`, `turnLeaves_runParts` -- where a turn leaves the component;
* `programs_walked` -- **the parts come back** exactly if no text is too long for its length.
-/

namespace InstrumentFlow

open Bytecode Expression Scpi

namespace Engine

/-! ## 1. Streams inside a payload -/

/-- Who reads the same words does the same. -/
theorem evaluateIn_congr {code code' : List UInt8} (h : scan code = scan code')
    (activity : Activity) (i : InstanceId) (iterators : List Int32) (target : Bool) :
    evaluateIn activity i code iterators target = evaluateIn activity i code' iterators target := by
  have hrun (e : Engine) : runStream i code iterators target e
      = runStream i code' iterators target e := by
    unfold runStream
    dsimp only
    rw [evaluate_congr h, evaluateTarget_congr h]
  unfold evaluateIn
  simp only [hrun]

/-- An evaluation takes its stream up to the end, and has no result where there is none. -/
theorem yields_evaluateIn (activity : Activity) (i : InstanceId) (code : List UInt8)
    (iterators : List Int32) (target : Bool) (e : Engine) :
    Yields (fun _ _ => True) (fun r _ => .stop ∈ scan code ∧ r.2 = 2 * (scan code).length)
      (evaluateIn activity i code iterators target) e := by
  have hrun (r : Value × Nat) (hr : (runStream i code iterators target e).1 = .ok r) :
      .stop ∈ scan code ∧ r.2 = 2 * (scan code).length := by
    unfold runStream at hr
    dsimp only at hr
    split at hr
    · next r' w h =>
      obtain rfl := Except.ok.inj hr
      have hstop : .stop ∈ scan code := by
        by_contra hno
        have hbreaks := breaksOff_of_not_mem hno
        cases target with
        | true => exact hbreaks.target _ _ _ _ h
        | false => exact hbreaks.value _ _ _ _ h
      have hfinishes := finishes_scan hstop
      cases target with
      | true => exact ⟨hstop, (hfinishes.target _).consumed _ _ _ h⟩
      | false => exact ⟨hstop, (hfinishes.value _).consumed _ _ _ h⟩
    · cases hr
  unfold evaluateIn
  refine yields_get (yields_set_bind ?_)
  split
  · next r hr => exact yields_pure (hrun r hr)
  · exact yields_throw trivial

/-! ## 2. One part -/

/-- **What a component does at a part.** -/
def goThrough (i : InstanceId) (component : Nat) (p : Part) (s : ScpiProgress) : Act Walk :=
  match p with
  | .text text =>
    return .onward { s with cursor := s.cursor + p.bytes.length, text := s.text ++ text }
  | .expression code => do
    let (v, consumed) ← evaluateIn .scpiExpression i code [] false
    let text ← textOf v
    return .onward { s with cursor := s.cursor + 1 + consumed, text := s.text ++ text }
  | .queryAssign target => runVerb i component .query true target s
  | .query => runVerb i component .query false [] s
  | .command => runVerb i component .command false [] s

section

variable {i : InstanceId} {component flow : Nat} {s : ScpiProgress}

theorem runVerb_congr {code code' : List UInt8} (h : scan code = scan code') (kind : RequestKind)
    (assigns : Bool) :
    runVerb i component kind assigns code s = runVerb i component kind assigns code' s := by
  unfold runVerb assignAnswer
  rw [evaluateIn_congr h]

/-- **At the place of a part** a component does what the part says. -/
theorem runPart_part {front rest : List UInt8} {p : Part} (hwhole : p.Whole) (hshort : p.Short)
    (hs : s.cursor = front.length) :
    runPart i component flow (front ++ (p.bytes ++ rest)) s = goThrough i component p s := by
  have hbody {tag : UInt8} {body : List UInt8} (hp : p.bytes = tag :: body) :
      (front ++ (p.bytes ++ rest)).drop (s.cursor + 1) = body ++ rest := by
    rw [hp, hs, List.drop_append, Nat.add_sub_cancel_left, List.drop_of_length_le (Nat.le_succ _)]
    rfl
  have hhead : readHead (front ++ (p.bytes ++ rest)) s.cursor = .ok p.head := by
    rw [hs, readHead_part p hshort]
  unfold runPart
  rw [hhead]
  cases p with
  | text text =>
    have hcursor : s.cursor + 1 + ((Text.encodeUtf8 text).length + 2)
        = s.cursor + (Part.text text).bytes.length := by
      simp [Part.bytes, Program.add, Program.text, Program.push, Instruction.wordBytes]
      omega
    dsimp only [Part.head]
    rw [hcursor]
    rfl
  | expression code =>
    obtain ⟨-, -, hscan⟩ := scan_append_of_whole hwhole rest
    dsimp only [Part.head]
    rw [hbody rfl, evaluateIn_congr hscan]
    rfl
  | queryAssign target =>
    obtain ⟨-, -, hscan⟩ := scan_append_of_whole hwhole rest
    dsimp only [Part.head]
    rw [hbody rfl, runVerb_congr hscan]
    rfl
  | query => rfl
  | command => rfl

/-- **Behind the last part** a component is at the end. -/
theorem runPart_last {front : List UInt8} (hs : s.cursor = front.length) :
    runPart i component flow (front ++ [PartTag.finish.byte]) s = pure .finished := by
  unfold runPart
  rw [hs, readHead_last]

/-- **Where a part of `n` bytes leaves a component**: behind the part, or still at it to wait. -/
def Advances (s : ScpiProgress) (n : Nat) : Walk → Prop
  | .onward s' => s'.cursor = s.cursor + n
  | .waiting s' => s'.cursor = s.cursor
  | .finished => False

/-- Nothing is said about how an activity ends. -/
theorem yields_trivial {α : Type} (a : Act α) (e : Engine) :
    Yields (fun _ _ => True) (fun _ _ => True) a e := by
  unfold Yields
  split <;> trivial

theorem yields_transact (kind : RequestKind) (e : Engine) :
    Yields (fun _ _ => True) (fun r _ => r.2.cursor = s.cursor) (transact i component kind s) e := by
  unfold transact
  split
  · exact yields_modify_bind (yields_bind (yields_trivial _ _) fun _ _ _ => yields_pure rfl)
  · refine yields_get ?_
    dsimp only
    split
    · exact yields_set_bind (yields_throw trivial)
    · exact yields_set_bind (yields_pure rfl)
    · exact yields_set_bind (yields_pure rfl)

theorem yields_assignAnswer (code : List UInt8) (answer : String) (e : Engine) :
    Yields (fun _ _ => True) (fun n _ => .stop ∈ scan code ∧ n = 2 * (scan code).length)
      (assignAnswer i component code answer) e := by
  unfold assignAnswer
  refine yields_bind (yields_evaluateIn _ i code [] true e) fun r e' hr => ?_
  exact yields_bind (yields_trivial _ e') fun _ _ _ => yields_pure hr

/-- **Where a verb leaves a component**: behind its tag and the stream of its target, if it has one,
    or still at it to wait. -/
def VerbLeaves (s : ScpiProgress) (assigns : Bool) (code : List UInt8) : Walk → Prop
  | .onward s' => if assigns
      then .stop ∈ scan code ∧ s'.cursor = s.cursor + 1 + 2 * (scan code).length
      else s'.cursor = s.cursor + 1
  | .waiting s' => s'.cursor = s.cursor
  | .finished => False

theorem yields_runVerb (kind : RequestKind) (assigns : Bool) (code : List UInt8) (e : Engine) :
    Yields (fun _ _ => True) (fun w _ => VerbLeaves s assigns code w)
      (runVerb i component kind assigns code s) e := by
  have honward (r : Response) {s' : ScpiProgress} (hs : s'.cursor = s.cursor) (e : Engine) :
      Yields (fun _ _ => True) (fun w _ => VerbLeaves s assigns code w) (do
        let consumed ← if assigns then assignAnswer i component code r.text else pure 0
        return Walk.onward { s' with cursor := s'.cursor + 1 + consumed, text := "" } : Act Walk)
        e := by
    cases assigns with
    | true =>
      refine yields_bind (yields_assignAnswer code r.text e) fun n _ hn => yields_pure ?_
      exact ⟨hn.1, by rw [hs, hn.2]⟩
    | false =>
      refine yields_pure ?_
      show s'.cursor + 1 = s.cursor + 1
      rw [hs]
  unfold runVerb
  refine yields_bind (yields_transact kind e) fun r e' hr => ?_
  obtain ⟨response, s'⟩ := r
  cases response with
  | none => exact yields_pure hr
  | some r =>
    dsimp only
    split
    · exact yields_get (yields_throw trivial)
    · split
      · exact yields_modify_bind (honward r hr _)
      · exact honward r hr _

/-- **A part leaves the component** behind it, or still at it to wait. -/
theorem yields_goThrough {p : Part} (hwhole : p.Whole) (e : Engine) :
    Yields (fun _ _ => True) (fun w _ => Advances s p.bytes.length w) (goThrough i component p s)
      e := by
  have hlength {code : List UInt8}
      (h : ∃ is, decode code = .ok is ∧ code.length = 2 * is.length) :
      code.length = 2 * (scan code).length := (scan_append_of_whole h []).2.1
  cases p with
  | text text => exact yields_pure rfl
  | expression code =>
    refine yields_bind (yields_evaluateIn _ i code [] false e) fun r e' hr => ?_
    refine yields_bind (yields_trivial _ e') fun text e'' _ => yields_pure ?_
    have hbytes : (Part.expression code).bytes.length = code.length + 1 := rfl
    have hcode := hlength hwhole
    have hconsumed := hr.2
    show s.cursor + 1 + r.2 = s.cursor + (Part.expression code).bytes.length
    omega
  | queryAssign target =>
    have hbytes : (Part.queryAssign target).bytes.length = target.length + 1 := rfl
    have htarget := hlength hwhole
    refine (yields_runVerb .query true target e).mono (fun _ _ h => h) fun w _ hw => ?_
    cases w with
    | onward s' =>
      have hcursor : s'.cursor = s.cursor + 1 + 2 * (scan target).length := hw.2
      show s'.cursor = s.cursor + (Part.queryAssign target).bytes.length
      omega
    | waiting s' => exact hw
    | finished => exact hw
  | query =>
    refine (yields_runVerb .query false [] e).mono (fun _ _ h => h) fun w _ hw => ?_
    cases w <;> exact hw
  | command =>
    refine (yields_runVerb .command false [] e).mono (fun _ _ h => h) fun w _ hw => ?_
    cases w <;> exact hw

end

/-! ## 3. All turns -/

/-- **The parts that a component has gone through** when it stands at its progress. What happened to
    the program between two parts makes no difference. -/
inductive Walked (i : InstanceId) (component : Nat) (payload : List UInt8) :
    List Part → ScpiProgress → Prop
  | start : Walked i component payload [] {}
  | onward {met : List Part} {s s' : ScpiProgress} {flow : Nat} {e e' : Engine} :
      Walked i component payload met s →
      runPart i component flow payload s e = .ok (.onward s') e' →
      Walked i component payload (met ++ (partAt? payload s.cursor).toList) s'
  | waiting {met : List Part} {s s' : ScpiProgress} {flow : Nat} {e e' : Engine} :
      Walked i component payload met s →
      runPart i component flow payload s e = .ok (.waiting s') e' →
      Walked i component payload met s'

section

variable {i : InstanceId} {component flow : Nat} {parts met : List Part} {s : ScpiProgress}
  (hwhole : ∀ p ∈ parts, p.Whole) (hshort : ∀ p ∈ parts, p.Short)

/-- What a component does behind some parts, where others follow. -/
def atFront (i : InstanceId) (component : Nat) (s : ScpiProgress) : List Part → Act Walk
  | [] => pure .finished
  | p :: _ => goThrough i component p s

include hwhole hshort

/-- **Between two parts** a component does what the next one says. -/
theorem runPart_payloadOf {before after : List Part} (hparts : parts = before ++ after)
    (hs : s.cursor = extent before) :
    runPart i component flow (payloadOf parts) s = atFront i component s after := by
  rw [hparts]
  cases after with
  | nil =>
    rw [List.append_nil, payloadOf_eq]
    exact runPart_last hs
  | cons p after =>
    have hp : p ∈ parts := by simp [hparts]
    rw [payloadOf_append]
    exact runPart_part (hwhole p hp) (hshort p hp) hs

theorem partAt?_payloadOf {before after : List Part} {p : Part} (hparts : parts = before ++ p :: after)
    (hs : s.cursor = extent before) : partAt? (payloadOf parts) s.cursor = some p := by
  have hp : p ∈ parts := by simp [hparts]
  rw [hparts, payloadOf_append, hs]
  exact (partAt?_eq_some_iff (hwhole p hp)).mpr (hshort p hp)

/-- **The parts that were gone through** are the first ones, and the component stands behind them. -/
theorem walked_payloadOf (h : Walked i component (payloadOf parts) met s) :
    ∃ after, parts = met ++ after ∧ s.cursor = extent met := by
  induction h with
  | start => exact ⟨parts, rfl, rfl⟩
  | @onward met s s' flow e e' _ hrun ih =>
    obtain ⟨after, hparts, hs⟩ := ih
    rw [runPart_payloadOf hwhole hshort hparts hs] at hrun
    cases after with
    | nil => cases hrun
    | cons p after =>
      have hp : p ∈ parts := by simp [hparts]
      rw [partAt?_payloadOf hwhole hshort hparts hs]
      refine ⟨after, by simp [hparts], ?_⟩
      have hcursor : s'.cursor = s.cursor + p.bytes.length :=
        (yields_goThrough (hwhole p hp) e).of_ok hrun
      rw [hcursor, hs, Option.toList_some, extent_append]
  | @waiting met s s' flow e e' _ hrun ih =>
    obtain ⟨after, hparts, hs⟩ := ih
    rw [runPart_payloadOf hwhole hshort hparts hs] at hrun
    cases after with
    | nil => cases hrun
    | cons p after =>
      have hp : p ∈ parts := by simp [hparts]
      have hcursor : s'.cursor = s.cursor := (yields_goThrough (hwhole p hp) e).of_ok hrun
      exact ⟨p :: after, hparts, hcursor.trans hs⟩

/-- **Where a turn leaves a component** that had gone through some parts: waiting at a later part, at
    the end of them all, or failed at a part. -/
def TurnLeaves (i : InstanceId) (component : Nat) (parts met : List Part) :
    EStateM.Result FlowError Engine (Option ScpiProgress) → Prop
  | .ok (some s) _ => ∃ more p after, parts = met ++ more ++ p :: after
      ∧ Walked i component (payloadOf parts) (met ++ more) s
  | .ok none _ => ∃ s, Walked i component (payloadOf parts) parts s
  | .error err e' => ∃ more p after s e, parts = met ++ more ++ p :: after
      ∧ Walked i component (payloadOf parts) (met ++ more) s
      ∧ goThrough i component p s e = .error err e'

omit hwhole hshort in
theorem TurnLeaves.earlier {p : Part} {r : EStateM.Result FlowError Engine (Option ScpiProgress)}
    (h : TurnLeaves i component parts (met ++ [p]) r) : TurnLeaves i component parts met r := by
  have happend (more : List Part) : met ++ [p] ++ more = met ++ p :: more := by simp
  cases r with
  | ok rest e =>
    cases rest with
    | none => exact h
    | some s =>
      obtain ⟨more, q, after, hparts, hwalked⟩ := h
      exact ⟨p :: more, q, after, happend more ▸ hparts, happend more ▸ hwalked⟩
  | error err e =>
    obtain ⟨more, q, after, s, e₁, hparts, hwalked, herror⟩ := h
    exact ⟨p :: more, q, after, s, e₁, happend more ▸ hparts, happend more ▸ hwalked, herror⟩

/-- **A turn** goes on where the last one stopped. The count of parts never runs out. -/
theorem turnLeaves_runParts (h : Walked i component (payloadOf parts) met s) {more : Nat}
    (hmore : (payloadOf parts).length < s.cursor + more) (e : Engine) :
    TurnLeaves i component parts met (runParts i component flow (payloadOf parts) more s e) := by
  induction more generalizing met s e with
  | zero =>
    obtain ⟨after, hparts, hs⟩ := walked_payloadOf hwhole hshort h
    have hlength : extent met ≤ (payloadOf parts).length := by
      rw [hparts, payloadOf_eq, List.flatMap_append, List.append_assoc, List.length_append]
      exact Nat.le_add_right _ _
    omega
  | succ more ih =>
    obtain ⟨after, hparts, hs⟩ := walked_payloadOf hwhole hshort h
    have hpart : runPart i component flow (payloadOf parts) s = atFront i component s after :=
      runPart_payloadOf hwhole hshort hparts hs
    unfold runParts
    cases after with
    | nil =>
      rw [List.append_nil] at hparts
      rw [hpart]
      exact ⟨s, hparts ▸ h⟩
    | cons p after =>
      have hp : p ∈ parts := by simp [hparts]
      cases hrun : runPart i component flow (payloadOf parts) s e with
      | error err e' =>
        rw [bind_of_error hrun]
        rw [hpart] at hrun
        exact ⟨[], p, after, s, e, by simpa using hparts, by simpa using h, hrun⟩
      | ok w e' =>
        have hadvances : Advances s p.bytes.length w := by
          rw [hpart] at hrun
          exact (yields_goThrough (hwhole p hp) e).of_ok hrun
        rw [bind_of_ok hrun]
        cases w with
        | onward s' =>
          have hnext := h.onward hrun
          rw [partAt?_payloadOf hwhole hshort hparts hs, Option.toList_some] at hnext
          have hcursor : s'.cursor = s.cursor + p.bytes.length := hadvances
          have hpos := p.length_bytes_pos
          exact (ih hnext (by omega) e').earlier
        | waiting s' =>
          exact ⟨[], p, after, by simpa using hparts, by simpa using h.waiting hrun⟩
        | finished => exact hadvances.elim

end

/-- **A component stands behind parts** of a program: it will do what the next one says, or come to
    the end if there is none. -/
def StandsBehind (i : InstanceId) (component : Nat) (parts met : List Part) (s : ScpiProgress) :
    Prop :=
  ∃ after, parts = met ++ after
    ∧ ∀ flow, runPart i component flow (payloadOf parts) s = atFront i component s after

end Engine

open Engine

/-- **Programs are walked as they were written.** The parts stand in the payload, each with its text
    or its stream, exactly if the length of every text can be written. A component then meets them
    in order whatever happens between its turns, and comes to the end behind the last one. -/
theorem programs_walked (parts : List Part) (hwhole : ∀ p ∈ parts, p.Whole) :
    ((∀ before p after, parts = before ++ p :: after →
        partAt? (payloadOf parts) (extent before) = some p) ↔ ∀ p ∈ parts, p.Short)
    ∧ ((∀ p ∈ parts, p.Short) → ∀ i component,
      (∀ met s, Walked i component (payloadOf parts) met s →
        StandsBehind i component parts met s)
      ∧ ∀ (e : Engine) met,
        Walked i component (payloadOf parts) met (scpiProgress (e.progress? i component)) →
        TurnLeaves i component parts met (e.scpiParts i component (payloadOf parts))) := by
  refine ⟨⟨fun h p hp => ?_, fun hshort before p after hparts => ?_⟩, fun hshort i component =>
    ⟨fun met s h => ?_, fun e met h => ?_⟩⟩
  · obtain ⟨before, after, hparts⟩ := List.append_of_mem hp
    have hread := h before p after hparts
    rw [hparts, payloadOf_append] at hread
    exact (partAt?_eq_some_iff (hwhole p hp)).mp hread
  · exact partAt?_payloadOf (s := ⟨extent before, "", none⟩) hwhole hshort hparts rfl
  · obtain ⟨after, hparts, hs⟩ := walked_payloadOf hwhole hshort h
    exact ⟨after, hparts, fun flow => runPart_payloadOf hwhole hshort hparts hs⟩
  · exact turnLeaves_runParts hwhole hshort h (by omega) _

/-- A query with a text and an expression in it. -/
def askingParts : List Part := [.text "V? ", .expression [2, 0, 0, 0xE0], .query]

theorem programs_walked_asking :
    payloadOf askingParts = [1, 3, 0, 0x56, 0x3F, 0x20, 2, 2, 0, 0, 0xE0, 4, 6]
    ∧ (∀ p ∈ askingParts, p.Whole) ∧ StandsBehind ⟨0, 0⟩ 0 askingParts [] {} := by
  have hwhole : ∀ p ∈ askingParts, p.Whole := by
    intro p hp
    simp only [askingParts, List.mem_cons, List.not_mem_nil, or_false] at hp
    obtain rfl | rfl | rfl := hp
    · trivial
    · exact ⟨[.pushConstant 2, .stop], by decide, rfl⟩
    · trivial
  exact ⟨by decide, hwhole,
    ((programs_walked askingParts hwhole).2 (by decide) ⟨0, 0⟩ 0).1 [] {} .start⟩

theorem length_encodeUtf8_replicate (n : Nat) :
    (Text.encodeUtf8 (String.ofList (List.replicate n 'a'))).length = n := by
  rw [Text.encodeUtf8, String.toList_ofList]
  induction n with
  | zero => rfl
  | succ n ih =>
    rw [List.replicate_succ, List.flatMap_cons, List.length_append, ih, Nat.add_comm]
    rfl

/-- **A text that is too long for its length** is met as an empty one. -/
theorem not_programs_walked : ¬ ∀ parts : List Part, (∀ p ∈ parts, p.Whole) →
    ∀ i component met s, Walked i component (payloadOf parts) met s → met <+: parts := by
  intro h
  obtain ⟨wide, hlength⟩ : ∃ wide : String, (Text.encodeUtf8 wide).length = 0x10000 :=
    ⟨_, length_encodeUtf8_replicate 0x10000⟩
  have hhead : readHead (payloadOf [.text wide, .command]) 0 = .ok (.text "" 2) := by
    have hread := @readHead_text [] (payloadOf [.command]) wide
    rw [hlength, List.take_zero] at hread
    have hpayload := payloadOf_append [] (.text wide) [.command]
    exact hpayload ▸ hread
  have hrun : runPart ⟨0, 0⟩ 0 0 (payloadOf [.text wide, .command]) {} (built {} {} .absent {})
      = .ok (.onward ⟨3, "", none⟩) (built {} {} .absent {}) := by
    unfold runPart
    rw [hhead]
    rfl
  have hpart : partAt? (payloadOf [.text wide, .command]) 0 = some (.text "") := by
    rw [partAt?, hhead]
  have hmet := h [.text wide, .command] (by simp [Part.Whole]) ⟨0, 0⟩ 0 _ _
    (Walked.start.onward hrun)
  rw [hpart] at hmet
  obtain ⟨rest, hrest⟩ := hmet
  have htext : wide = "" := (Part.text.inj (List.cons.inj hrest).1).symm
  rw [htext] at hlength
  cases hlength

end InstrumentFlow
