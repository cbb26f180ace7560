import InstrumentFlow.Proofs.Programs
import InstrumentFlow.Proofs.Programs.Layout

/-!
# The listing shows the program that runs

A component finds where a part ends from what its evaluation has taken, a listing from a scan of its
own. They come to the same places as long as the component goes on, and a listing that reaches the
last tag has shown nothing but whole parts.

* `partBetween?`, `Met` -- the parts that a component has met, cut out where it came and went on;
* `yields_runPart` -- **one part**: what it leaves behind is that part, laid out;
* `Met.laid`, `Met.ended` -- **all parts**, over any count of turns;
* `listing_shows_program` -- the listing is that of the parts that were met, and what a listing with
  the last tag at its end tells.
-/

namespace InstrumentFlow

open Bytecode Expression Scpi

namespace Engine

/-! ## 1. One part -/

/-- **The part between two places of a payload**: what the tag at the first one says, with the bytes
    up to the second. -/
def partBetween? (payload : List UInt8) (start stop : Nat) : Option Part :=
  let stream := (payload.take stop).drop (start + 1)
  match readHead payload start with
  | .ok (.text s _) => some (.text s)
  | .ok .expression => some (.expression stream)
  | .ok .queryAssign => some (.queryAssign stream)
  | .ok .query => some .query
  | .ok .command => some .command
  | _ => none

/-- Whole parts from one place on make whole parts from an earlier one, with a part in front. -/
def Precedes (payload : List UInt8) (start stop : Nat) (p : Part) : Prop :=
  ∀ parts, Laid (payload.drop stop) parts → Laid (payload.drop start) (p :: parts)

section

variable {i : InstanceId} {component flow : Nat} {payload : List UInt8} {s : ScpiProgress}

/-- **Where a part leaves a component**: behind that part, still at it to wait, or at the last tag. -/
def PartLeaves (payload : List UInt8) (s : ScpiProgress) : Walk → Prop
  | .onward s' => ∃ p, partBetween? payload s.cursor s'.cursor = some p
      ∧ Precedes payload s.cursor s'.cursor p
  | .waiting s' => s'.cursor = s.cursor
  | .finished => Laid (payload.drop s.cursor) []

/-- The stream that was taken behind a tag, and the rest. -/
theorem taken_stream {start : Nat} {tag : UInt8} {body : List UInt8}
    (hdrop : payload.drop start = tag :: body) (hstop : .stop ∈ scan body) :
    let taken := (payload.take (start + 1 + 2 * (scan body).length)).drop (start + 1)
    (∃ is, decode taken = .ok is ∧ taken.length = 2 * is.length)
      ∧ body = taken ++ payload.drop (start + 1 + 2 * (scan body).length) := by
  have hbody : payload.drop (start + 1) = body := by
    rw [← List.drop_drop, hdrop]
    rfl
  have htaken : (payload.take (start + 1 + 2 * (scan body).length)).drop (start + 1)
      = body.take (2 * (scan body).length) := by
    rw [List.drop_take, hbody, Nat.add_sub_cancel_left]
  have hrest : payload.drop (start + 1 + 2 * (scan body).length)
      = body.drop (2 * (scan body).length) := by
    rw [← List.drop_drop, hbody]
  dsimp only
  rw [htaken, hrest]
  exact ⟨whole_take hstop, (List.take_append_drop _ _).symm⟩

/-- A verb without a target is a part of one tag. -/
theorem yields_runVerb_tag {p : Part} (hcut : ∀ stop, partBetween? payload s.cursor stop = some p)
    (hnext : Precedes payload s.cursor (s.cursor + 1) p) (kind : RequestKind) (code : List UInt8)
    (e : Engine) : Yields (fun _ _ => True) (fun w _ => PartLeaves payload s w)
      (runVerb i component kind false code s) e := by
  refine (yields_runVerb kind false code e).mono (fun _ _ h => h) fun w _ hw => ?_
  cases w with
  | onward s' =>
    have hcursor : s'.cursor = s.cursor + 1 := hw
    exact ⟨p, hcut _, hcursor ▸ hnext⟩
  | waiting s' => exact hw
  | finished => exact hw.elim

/-- **One part.** What it takes is a whole part, however its evaluation came to know its end. -/
theorem yields_runPart (e : Engine) :
    Yields (fun _ _ => True) (fun w _ => PartLeaves payload s w)
      (runPart i component flow payload s) e := by
  unfold runPart
  cases hhead : readHead payload s.cursor with
  | error defect => exact yields_throw trivial
  | ok head =>
    have hbegins := begins_of_readHead hhead
    generalize hdrop : payload.drop s.cursor = front at hbegins
    have hbehind (n : Nat) : payload.drop (s.cursor + n) = front.drop n := by
      rw [← List.drop_drop, hdrop]
    dsimp only
    rw [hbehind]
    cases hbegins with
    | @text low high bytes rest hlength =>
      refine yields_pure ⟨.text _, by rw [partBetween?, hhead], fun parts hparts => ?_⟩
      have hcount : s.cursor + 1 + (bytes.length + 2) = s.cursor + (bytes.length + 3) := by omega
      dsimp only at hparts
      rw [hcount, hbehind, List.drop_succ_cons, List.drop_succ_cons, List.drop_succ_cons,
        List.drop_left] at hparts
      rw [hdrop]
      exact .text hlength hparts
    | expression body =>
      refine yields_bind (yields_evaluateIn _ i body [] false e) fun r e' hr => ?_
      refine yields_bind (yields_trivial _ e') fun text e'' _ => yields_pure ?_
      obtain ⟨hwhole, hbody⟩ := taken_stream hdrop hr.1
      refine ⟨.expression _, by rw [partBetween?, hhead], fun parts hparts => ?_⟩
      dsimp only at hparts ⊢
      rw [hr.2] at hparts ⊢
      have hlaid := Laid.expression hwhole hparts
      rwa [← hbody, ← hdrop] at hlaid
    | queryAssign body =>
      refine (yields_runVerb .query true body e).mono (fun _ _ h => h) fun w _ hw => ?_
      cases w with
      | onward s' =>
        obtain ⟨hstop, hcursor⟩ := hw
        obtain ⟨hwhole, hbody⟩ := taken_stream hdrop hstop
        refine ⟨.queryAssign _, by rw [partBetween?, hhead], fun parts hparts => ?_⟩
        rw [hcursor] at hparts ⊢
        have hlaid := Laid.queryAssign hwhole hparts
        rwa [← hbody, ← hdrop] at hlaid
      | waiting s' => exact hw
      | finished => exact hw.elim
    | query body =>
      refine yields_runVerb_tag (fun _ => by rw [partBetween?, hhead]) (fun parts hparts => ?_) ..
      rw [hbehind] at hparts
      exact hdrop ▸ .query hparts
    | command body =>
      refine yields_runVerb_tag (fun _ => by rw [partBetween?, hhead]) (fun parts hparts => ?_) ..
      rw [hbehind] at hparts
      exact hdrop ▸ .command hparts
    | finish body =>
      have hlaid := Laid.finish body
      exact yields_pure (hdrop ▸ hlaid : Laid (payload.drop s.cursor) [])

end

/-! ## 2. All parts -/

/-- **The parts that a component has met** when it stands at its progress, over any count of turns.
    What happened to the program between two parts makes no difference. -/
inductive Met (i : InstanceId) (component : Nat) (payload : List UInt8) :
    List Part → ScpiProgress → Prop
  | start : Met i component payload [] {}
  | onward {met : List Part} {s s' : ScpiProgress} {flow : Nat} {e e' : Engine} :
      Met i component payload met s →
      runPart i component flow payload s e = .ok (.onward s') e' →
      Met i component payload (met ++ (partBetween? payload s.cursor s'.cursor).toList) s'
  | waiting {met : List Part} {s s' : ScpiProgress} {flow : Nat} {e e' : Engine} :
      Met i component payload met s →
      runPart i component flow payload s e = .ok (.waiting s') e' →
      Met i component payload met s'

section

variable {i : InstanceId} {component flow : Nat} {payload : List UInt8} {met : List Part}
  {s : ScpiProgress}

/-- **The parts that were met lie in front of the place** where the component stands. -/
theorem Met.laid (h : Met i component payload met s) :
    ∀ parts, Laid (payload.drop s.cursor) parts → Laid payload (met ++ parts) := by
  induction h with
  | start => exact fun parts hparts => hparts
  | @onward met s s' flow e e' _ hrun ih =>
    obtain ⟨p, hp, hprecedes⟩ : PartLeaves payload s (.onward s') := (yields_runPart e).of_ok hrun
    intro parts hparts
    rw [hp, Option.toList_some, List.append_assoc]
    exact ih (p :: parts) (hprecedes parts hparts)
  | @waiting met s s' flow e e' _ hrun ih =>
    have hcursor : PartLeaves payload s (.waiting s') := (yields_runPart e).of_ok hrun
    rw [PartLeaves] at hcursor
    rwa [hcursor]

/-- **At the last tag** the parts that were met are the whole payload. -/
theorem Met.ended (h : Met i component payload met s) {e e' : Engine}
    (hrun : runPart i component flow payload s e = .ok .finished e') : Laid payload met := by
  have hend : Laid (payload.drop s.cursor) [] := (yields_runPart e).of_ok hrun
  simpa using h.laid [] hend

/-- A turn that comes to the end has met the rest of the parts. -/
theorem met_runParts {more : Nat} {e e' : Engine} (h : Met i component payload met s)
    (hrun : runParts i component flow payload more s e = .ok none e') :
    ∃ rest s', Met i component payload (met ++ rest) s' ∧ Laid payload (met ++ rest) := by
  induction more generalizing met s e with
  | zero => cases hrun
  | succ more ih =>
    unfold runParts at hrun
    cases hpart : runPart i component flow payload s e with
    | error err e₁ =>
      rw [bind_of_error hpart] at hrun
      cases hrun
    | ok w e₁ =>
      rw [bind_of_ok hpart] at hrun
      cases w with
      | onward s₁ =>
        obtain ⟨rest, s', hmet, hlaid⟩ := ih (h.onward hpart) hrun
        rw [List.append_assoc] at hmet hlaid
        exact ⟨_, s', hmet, hlaid⟩
      | waiting s₁ => cases hrun
      | finished =>
        have hmet : met ++ [] = met := List.append_nil met
        exact ⟨[], s, hmet.symm ▸ h, hmet.symm ▸ h.ended hpart⟩

end

end Engine

open Engine

/-- **The listing shows the program that runs.** Where a component comes to the last tag, now or in
    a later turn, the listing of its payload is that of the parts it has met, and the last tag.
    A listing of any payload ends, with one line of text for each of its lines, and where the line
    of the last tag ends it, all parts in front of it are whole and nothing is shown as missing,
    broken off or unknown. -/
theorem listing_shows_program (payload : List UInt8) :
    (∀ i component met s, Met i component payload met s →
      ∀ flow e e', runPart i component flow payload s e = .ok .finished e' →
        partLines payload = met.flatMap Part.lines ++ [endLine])
    ∧ (∀ (e e' : Engine) i component met,
      Met i component payload met (scpiProgress (e.progress? i component)) →
      e.scpiParts i component payload = .ok none e' →
        ∃ rest s, Met i component payload (met ++ rest) s
          ∧ partLines payload = (met ++ rest).flatMap Part.lines ++ [endLine])
    ∧ (partLines payload).length ≤ payload.length + 1
    ∧ textLines (joinLines (partLines payload)) = partLines payload
    ∧ ((partLines payload).getLast? = some endLine →
      (∃ parts, Laid payload parts ∧ partLines payload = parts.flatMap Part.lines ++ [endLine])
      ∧ ∀ l ∈ partLines payload, ¬Damage l) := by
  refine ⟨fun i component met s h flow e e' hrun => partLines_of_laid (h.ended hrun),
    fun e e' i component met h hrun => ?_, length_partLines_le payload,
    textLines_joinLines_partLines payload, fun hlast => ?_⟩
  · obtain ⟨rest, s, hmet, hlaid⟩ := met_runParts h hrun
    exact ⟨rest, s, hmet, partLines_of_laid hlaid⟩
  · obtain ⟨parts, hparts⟩ := exists_laid_of_getLast? payload hlast
    exact ⟨⟨parts, hparts, partLines_of_laid hparts⟩, fun l hl => not_damage_of_laid hparts hl⟩

/-- A text and a constant, without a request. -/
def shownPayload : List UInt8 := [1, 1, 0, 0x56, 2, 0, 0, 0, 0xE0, 6]

/-- A program with one constant. -/
def shownEngine : Engine := built { constants := [.int 5] } {} .absent {}

theorem listing_shows_program_text :
    Met ⟨0, 0⟩ 0 shownPayload [.text "V", .expression [0, 0, 0, 0xE0]] ⟨9, "V5", none⟩
    ∧ partLines shownPayload = ["    STRING \"V\"", "    EXPR",
      "      0000: PUSH_CONST       #0", "      0001: END", "    END"] := by
  have htext : runPart ⟨0, 0⟩ 0 0 shownPayload {} shownEngine
      = .ok (.onward ⟨4, "V", none⟩) shownEngine := rfl
  have hexpression : runPart ⟨0, 0⟩ 0 0 shownPayload ⟨4, "V", none⟩ shownEngine
      = .ok (.onward ⟨9, "V5", none⟩)
        (stateAfter (runPart ⟨0, 0⟩ 0 0 shownPayload ⟨4, "V", none⟩ shownEngine)) := rfl
  have hmet := (Met.start.onward htext).onward hexpression
  have hlines := (listing_shows_program shownPayload).1 ⟨0, 0⟩ 0 _ _ hmet 0 shownEngine shownEngine
    rfl
  exact ⟨hmet, hlines.trans (by decide +kernel)⟩

end InstrumentFlow
