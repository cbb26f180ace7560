import InstrumentFlow.Proofs.Expression.Application
import InstrumentFlow.Proofs.Text.Search
import Mathlib.Algebra.Group.Nat.Defs

/-!
# Searching in an expression

A text is looked for among the bytes of another one, and the answer is a number of characters.

* `findText_cases`, `toInt_findText` -- the answer is the first place, or -1 if there is none;
* `text_search` -- **the search for a text in an expression**.
-/

namespace InstrumentFlow.Expression

open Bytecode Text

variable {haystack needle : String}

/-- **The answer of a search** is the first place, counted in characters, or -1 if there is none. -/
theorem findText_cases (haystack needle : String) :
    (∃ i, i ≤ haystack.length ∧ findText haystack needle = Int32.ofNat i
      ∧ FirstAt needle.toList haystack.toList i)
    ∨ (findText haystack needle = -1 ∧ ¬ needle.toList <:+: haystack.toList) := by
  unfold findText
  cases hfind : findByte? haystack needle with
  | none => exact .inr ⟨rfl, findByte?_eq_none_iff.mp hfind⟩
  | some byte =>
    obtain ⟨i, hi, hfront, hfirst⟩ := findByte?_eq_some hfind
    refine .inl ⟨i, String.length_toList ▸ hi, ?_, hfirst⟩
    have hcount : (scans ((haystack.toList.take i).flatMap encodeChar)).length = i := by
      rw [scans_flatMap, List.length_map, List.length_take, Nat.min_eq_left hi]
    show Int32.ofNat (scans ((encodeUtf8 haystack).take byte)).length = _
    rw [hfront, hcount]

/-- **The answer as a whole number**, where the characters can be counted in 32 bits. -/
theorem toInt_findText (hlength : haystack.length < 2 ^ 31) :
    (∀ i : Nat, (findText haystack needle).toInt = i ↔ FirstAt needle.toList haystack.toList i)
    ∧ (findText haystack needle = -1 ↔ ¬ needle.toList <:+: haystack.toList) := by
  obtain ⟨i, hi, hanswer, hfirst⟩ | ⟨hanswer, hnot⟩ := findText_cases haystack needle
  · have hplace : (findText haystack needle).toInt = i := by
      rw [hanswer, Int32.toInt_ofNat_of_lt (Nat.lt_of_le_of_lt hi hlength)]
    have hfound : needle.toList <:+: haystack.toList :=
      infix_iff_exists_drop.mpr ⟨i, hfirst.starts⟩
    refine ⟨fun j => ⟨fun hj => ?_, fun hj => ?_⟩, fun hminus => ?_, fun hnot => ?_⟩
    · obtain rfl : i = j := Int.ofNat_inj.mp (hplace.symm.trans hj)
      exact hfirst
    · rw [hplace, hfirst.unique hj]
    · rw [hminus] at hplace
      have hnegative : (-1 : Int32).toInt = -1 := rfl
      omega
    · exact absurd hfound hnot
  · have hminus : (findText haystack needle).toInt = -1 := by
      rw [hanswer]
      rfl
    refine ⟨fun j => ⟨fun hj => ?_, fun hj => ?_⟩, fun _ => hnot, fun _ => hanswer⟩
    · omega
    · exact absurd (infix_iff_exists_drop.mpr ⟨j, hj.starts⟩) hnot

/-- **The search for a text in an expression**, wherever it stands in it. The bytes that are found
    have whole characters in front of them, so that the characters can be counted. The answer is the
    least number of characters after which the text continues with the one that is looked for, and
    it is -1 exactly if the text does not contain that one. -/
theorem text_search {c : Context} {w : Workspace} {below : List Value}
    (ho : Operands c w (.string haystack) (.string needle) below)
    (hlength : haystack.length < 2 ^ 31) :
    (∀ byte, findByte? haystack needle = some byte →
        ∃ front back, haystack = front ++ back
          ∧ (encodeUtf8 haystack).take byte = encodeUtf8 front)
    ∧ ∃ r : Int32, step c (operator .stringFind) w = leaving w below (.ok (.int r))
      ∧ (∀ i : Nat, r.toInt = i ↔ FirstAt needle.toList haystack.toList i)
      ∧ (r = -1 ↔ ¬ needle.toList <:+: haystack.toList) := by
  refine ⟨fun byte hbyte => ?_, findText haystack needle, ho.step rfl, toInt_findText hlength⟩
  obtain ⟨i, _, hfront, _⟩ := findByte?_eq_some hbyte
  refine ⟨.ofList (haystack.toList.take i), .ofList (haystack.toList.drop i), ?_, ?_⟩
  · rw [← String.ofList_append, List.take_append_drop, String.ofList_toList]
  · rw [hfront, encodeUtf8, String.toList_ofList]

/-- A text whose first character is also found earlier stands after characters of one, two and four
    bytes. -/
theorem text_search_degrees :
    let c := literalContext [] #[.string "aé😀é😀°C"]
    let w : Workspace := ⟨{ values := [.string "😀°", .global 0, .null], capacity := 3 }, {}⟩
    Operands c w (.string "aé😀é😀°C") (.string "😀°") [.null] ∧ "aé😀é😀°C".length < 2 ^ 31
    ∧ step c (operator .stringFind) w = leaving w [.null] (.ok (.int 4)) := by
  intro c w
  have ho : Operands c w (.string "aé😀é😀°C") (.string "😀°") [.null] :=
    ⟨⟨_, _, rfl, rfl, rfl⟩, by decide⟩
  have hlength : "aé😀é😀°C".length < 2 ^ 31 := by decide
  obtain ⟨_, r, hstep, hplace, _⟩ := text_search ho hlength
  have hfour : r.toInt = (4 : Nat) := (hplace 4).mpr ⟨by decide, by decide⟩
  have hr : r = 4 := Int32.toInt_inj.mp (hfour.trans (by decide))
  exact ⟨ho, hlength, by rw [hstep, hr]⟩

end InstrumentFlow.Expression
