import InstrumentFlow.Proofs.Text.Utf8
import Mathlib.Data.Nat.Find

/-!
# Searching a text by its bytes

A text is searched for another one byte by byte. The bytes of a character begin with one that no
character goes on with. So the bytes of a text are only found where one of the characters begins,
and the first place among the bytes is the first one among the characters.

* `FirstAt` -- the first place where a list starts in another;
* `find?_eq_some_iff`, `find?_eq_none_iff` -- the search finds it, or there is none;
* `Continues`, `encodeChar_spec` -- the first byte of a character, and the others;
* `begins_of_not_continues` -- every byte that goes on with no character begins one;
* `flatMap_encodeChar_prefix_iff` -- bytes that continue with those of a text;
* `FirstAt.of_bytes` -- **the first place among the bytes is the first one among the characters**;
* `findByte?_eq_some`, `findByte?_eq_none_iff` -- what is found in a text.
-/

namespace InstrumentFlow.Text

/-! ## 1. Lists in lists -/

section

variable {α : Type _} {needle l : List α} {i : Nat}

/-- **The first place** where a list starts in another: so many items are in front of it. -/
structure FirstAt (needle l : List α) (i : Nat) : Prop where
  starts : needle <+: l.drop i
  first : ∀ j < i, ¬ needle <+: l.drop j

theorem FirstAt.unique {j : Nat} (hi : FirstAt needle l i) (hj : FirstAt needle l j) : i = j := by
  rcases Nat.lt_trichotomy i j with hlt | heq | hlt
  · exact absurd hi.starts (hj.first i hlt)
  · exact heq
  · exact absurd hj.starts (hi.first j hlt)

theorem firstAt_zero_iff : FirstAt needle l 0 ↔ needle <+: l :=
  ⟨fun h => h.starts, fun h => ⟨h, fun _ hj => absurd hj (Nat.not_lt_zero _)⟩⟩

/-- A list that does not start at the front starts in the rest. -/
theorem firstAt_succ_iff {a : α} (hfront : ¬ needle <+: a :: l) :
    FirstAt needle (a :: l) (i + 1) ↔ FirstAt needle l i := by
  refine ⟨fun h => ⟨h.starts, fun j hj => h.first (j + 1) (Nat.succ_lt_succ hj)⟩,
    fun h => ⟨h.starts, fun j hj => ?_⟩⟩
  cases j with
  | zero => exact hfront
  | succ j => exact h.first j (Nat.lt_of_succ_lt_succ hj)

/-- A list is found inside another exactly if it starts somewhere in it. -/
theorem infix_iff_exists_drop : needle <:+: l ↔ ∃ i, needle <+: l.drop i := by
  rw [List.infix_iff_prefix_suffix]
  constructor
  · rintro ⟨t, hneedle, ht⟩
    exact ⟨l.length - t.length, List.suffix_iff_eq_drop.mp ht ▸ hneedle⟩
  · rintro ⟨i, h⟩
    exact ⟨l.drop i, h, List.drop_suffix i l⟩

variable [BEq α] [LawfulBEq α]

/-- **The search finds the first place**, and nothing else. -/
theorem find?_eq_some_iff : find? needle l = some i ↔ FirstAt needle l i := by
  induction l generalizing i with
  | nil =>
    unfold find?
    constructor
    · intro h
      split at h
      · next hempty =>
        cases h
        exact firstAt_zero_iff.mpr (List.isEmpty_iff.mp hempty ▸ List.nil_prefix)
      · cases h
    · intro h
      have hneedle : needle = [] := List.prefix_nil.mp (List.drop_nil ▸ h.starts)
      subst hneedle
      rw [h.unique (firstAt_zero_iff.mpr List.nil_prefix)]
      rfl
  | cons a l ih =>
    unfold find?
    by_cases hfront : needle <+: a :: l
    · rw [if_pos (List.isPrefixOf_iff_prefix.mpr hfront)]
      constructor
      · intro h
        cases h
        exact firstAt_zero_iff.mpr hfront
      · intro h
        rw [h.unique (firstAt_zero_iff.mpr hfront)]
    · rw [if_neg (fun h => hfront (List.isPrefixOf_iff_prefix.mp h)), Option.map_eq_some_iff]
      constructor
      · rintro ⟨j, hj, rfl⟩
        exact (firstAt_succ_iff hfront).mpr (ih.mp hj)
      · intro h
        cases i with
        | zero => exact absurd (firstAt_zero_iff.mp h) hfront
        | succ i => exact ⟨i, ih.mpr ((firstAt_succ_iff hfront).mp h), rfl⟩

/-- **The search finds nothing** exactly if there is no such place. -/
theorem find?_eq_none_iff : find? needle l = none ↔ ¬ needle <:+: l := by
  rw [infix_iff_exists_drop]
  constructor
  · rintro h hsome
    -- of all places there is a first one, and that would have been found
    classical
    have hfirst : FirstAt needle l (Nat.find hsome) :=
      ⟨Nat.find_spec hsome, fun _ hj => Nat.find_min hsome hj⟩
    rw [find?_eq_some_iff.mpr hfirst] at h
    cases h
  · intro h
    cases hfind : find? needle l with
    | none => rfl
    | some i => exact absurd ⟨i, (find?_eq_some_iff.mp hfind).starts⟩ h

end

/-! ## 2. Where characters begin -/

/-- A byte that goes on with a character. -/
def Continues (b : UInt8) : Prop := 0x80 ≤ b.toNat ∧ b.toNat < 0xC0

theorem continues_ofNat {k : Nat} (hk : k < 0x40) : Continues (UInt8.ofNat (0x80 + k)) := by
  unfold Continues
  rw [toNat_ofNat_of_lt (by omega)]
  omega

/-- **The bytes of a character**: only those after the first one go on with it. -/
theorem encodeChar_spec (c : Char) : ∃ lead tail, encodeChar c = lead :: tail
    ∧ ¬ Continues lead ∧ ∀ b ∈ tail, Continues b := by
  have hc : c.toNat < 0x110000 := by
    have := c.valid
    have hself : c.val.toNat = c.toNat := rfl
    unfold UInt32.isValidChar Nat.isValidChar at this
    omega
  unfold encodeChar
  generalize c.toNat = n at hc
  have hlead {k : Nat} (hk : k < 0x100) (hfirst : k < 0x80 ∨ 0xC0 ≤ k) :
      ¬ Continues (UInt8.ofNat k) := by
    unfold Continues
    rw [toNat_ofNat_of_lt hk]
    omega
  have htail (unit : Nat) : Continues (UInt8.ofNat (0x80 + n / unit % 0x40)) :=
    continues_ofNat (Nat.mod_lt _ (by decide))
  dsimp only
  split_ifs with h1 h2 h3
  · exact ⟨_, _, rfl, hlead (by omega) (by omega), nofun⟩
  · refine ⟨_, _, rfl, hlead (by omega) (by omega), ?_⟩
    simp only [List.forall_mem_cons]
    exact ⟨htail 1, nofun⟩
  · refine ⟨_, _, rfl, hlead (by omega) (by omega), ?_⟩
    simp only [List.forall_mem_cons]
    exact ⟨htail 0x40, htail 1, nofun⟩
  · refine ⟨_, _, rfl, hlead (by omega) (by omega), ?_⟩
    simp only [List.forall_mem_cons]
    exact ⟨htail 0x1000, htail 0x40, htail 1, nofun⟩

/-- A byte of a text that goes on with no character begins one. -/
theorem begins_of_not_continues {cs : List Char} {k : Nat} {b : UInt8}
    (hb : (cs.flatMap encodeChar)[k]? = some b) (hnot : ¬ Continues b) :
    ∃ i, i < cs.length ∧ k = ((cs.take i).flatMap encodeChar).length := by
  induction cs generalizing k with
  | nil => cases hb
  | cons c cs ih =>
    obtain ⟨lead, tail, hc, _, htail⟩ := encodeChar_spec c
    rw [List.flatMap_cons] at hb
    by_cases hk : k < (encodeChar c).length
    · -- inside of the first character, where only its first byte is one of those
      rw [List.getElem?_append_left hk, hc] at hb
      cases k with
      | zero => exact ⟨0, Nat.succ_pos _, rfl⟩
      | succ k => exact absurd (htail b (List.mem_of_getElem? hb)) hnot
    · rw [List.getElem?_append_right (Nat.le_of_not_lt hk)] at hb
      obtain ⟨i, hi, hrest⟩ := ih hb
      refine ⟨i + 1, Nat.succ_lt_succ hi, ?_⟩
      rw [List.take_succ_cons, List.flatMap_cons, List.length_append, ← hrest]
      omega

/-! ## 3. Texts in texts -/

/-- **Bytes that continue with those of a text** are those of a text that continues with it. -/
theorem flatMap_encodeChar_prefix_iff {ns cs : List Char} :
    ns.flatMap encodeChar <+: cs.flatMap encodeChar ↔ ns <+: cs := by
  constructor
  · intro h
    induction ns generalizing cs with
    | nil => exact List.nil_prefix
    | cons n ns ih =>
      obtain ⟨rest, hrest⟩ := h
      rw [List.flatMap_cons, List.append_assoc] at hrest
      cases cs with
      | nil =>
        have hnil := List.append_eq_nil_iff.mp hrest
        exact absurd hnil.1 (encodeChar_ne_nil n)
      | cons c cs =>
        rw [List.flatMap_cons] at hrest
        -- what stands at the front of the bytes is read as one character only
        have hscan := scan_encodeChar n (ns.flatMap encodeChar ++ rest)
        rw [hrest, scan_encodeChar c] at hscan
        cases hscan
        exact List.cons_prefix_cons.mpr ⟨rfl, ih ⟨rest, List.append_cancel_left hrest⟩⟩
  · rintro ⟨rest, rfl⟩
    rw [List.flatMap_append]
    exact List.prefix_append _ _

section

variable {cs ns : List Char} {i j k : Nat}

theorem flatMap_take_append_drop (cs : List Char) (i : Nat) :
    (cs.take i).flatMap encodeChar ++ (cs.drop i).flatMap encodeChar = cs.flatMap encodeChar := by
  rw [← List.flatMap_append, List.take_append_drop]

theorem take_length_flatMap (cs : List Char) (i : Nat) :
    (cs.flatMap encodeChar).take ((cs.take i).flatMap encodeChar).length
      = (cs.take i).flatMap encodeChar := by
  rw [← flatMap_take_append_drop cs i, List.take_left]

/-- A text that starts at a character has its bytes start where that character begins. -/
theorem prefix_drop_flatMap_iff :
    ns.flatMap encodeChar <+: (cs.flatMap encodeChar).drop ((cs.take i).flatMap encodeChar).length
      ↔ ns <+: cs.drop i := by
  rw [← flatMap_take_append_drop cs i, List.drop_left]
  exact flatMap_encodeChar_prefix_iff

/-- More characters have more bytes. -/
theorem length_flatMap_take_lt (hj : j < i) (hi : i ≤ cs.length) :
    ((cs.take j).flatMap encodeChar).length < ((cs.take i).flatMap encodeChar).length := by
  have hmore : (cs.take i).drop j ≠ [] := by
    rw [ne_eq, List.drop_eq_nil_iff, List.length_take, Nat.min_eq_left hi]
    exact Nat.not_le_of_lt hj
  obtain ⟨c, rest, hcons⟩ := List.exists_cons_of_ne_nil hmore
  have hc := List.length_pos_iff.mpr (encodeChar_ne_nil c)
  rw [← flatMap_take_append_drop (cs.take i) j, List.take_take, Nat.min_eq_left (Nat.le_of_lt hj),
    hcons, List.flatMap_cons, List.length_append, List.length_append]
  omega

/-- **The first place among the bytes is the first one among the characters**, and the bytes in
    front of it are those of whole characters. -/
theorem FirstAt.of_bytes (h : FirstAt (ns.flatMap encodeChar) (cs.flatMap encodeChar) k) :
    ∃ i, i ≤ cs.length ∧ k = ((cs.take i).flatMap encodeChar).length ∧ FirstAt ns cs i := by
  cases ns with
  | nil => exact ⟨0, Nat.zero_le _, h.unique (firstAt_zero_iff.mpr List.nil_prefix),
      firstAt_zero_iff.mpr List.nil_prefix⟩
  | cons n ns =>
    obtain ⟨lead, tail, hn, hlead, _⟩ := encodeChar_spec n
    obtain ⟨rest, hrest⟩ := h.starts
    have hbyte : (cs.flatMap encodeChar)[k]? = some lead := by
      rw [← Nat.add_zero k, ← List.getElem?_drop, ← hrest, List.flatMap_cons, hn]
      rfl
    obtain ⟨i, hi, rfl⟩ := begins_of_not_continues hbyte hlead
    exact ⟨i, Nat.le_of_lt hi, rfl, prefix_drop_flatMap_iff.mp h.starts, fun j hj hstarts =>
      h.first _ (length_flatMap_take_lt hj (Nat.le_of_lt hi)) (prefix_drop_flatMap_iff.mpr hstarts)⟩

end

section

variable {haystack needle : String} {byte : Nat}

/-- **The byte that is found** has whole characters in front of it, and behind these the text is
    found for the first time. -/
theorem findByte?_eq_some (h : findByte? haystack needle = some byte) :
    ∃ i, i ≤ haystack.toList.length
      ∧ (encodeUtf8 haystack).take byte = (haystack.toList.take i).flatMap encodeChar
      ∧ FirstAt needle.toList haystack.toList i := by
  obtain ⟨i, hi, rfl, hfirst⟩ := FirstAt.of_bytes (find?_eq_some_iff.mp h)
  exact ⟨i, hi, take_length_flatMap _ _, hfirst⟩

/-- **No byte is found** exactly if the text is not there. -/
theorem findByte?_eq_none_iff :
    findByte? haystack needle = none ↔ ¬ needle.toList <:+: haystack.toList := by
  unfold findByte?
  rw [find?_eq_none_iff, not_iff_not]
  constructor
  · intro h
    cases hfind : find? (encodeUtf8 needle) (encodeUtf8 haystack) with
    | none => exact absurd h (find?_eq_none_iff.mp hfind)
    | some byte =>
      obtain ⟨i, _, _, hfirst⟩ := findByte?_eq_some hfind
      exact infix_iff_exists_drop.mpr ⟨i, hfirst.starts⟩
  · intro h
    obtain ⟨i, hstarts⟩ := infix_iff_exists_drop.mp h
    exact infix_iff_exists_drop.mpr ⟨_, prefix_drop_flatMap_iff.mpr hstarts⟩

end

end InstrumentFlow.Text
