import InstrumentFlow.Text.Utf8
import Mathlib.Tactic.SplitIfs

/-!
# The bytes of a text read back as the text

Bytes that form no character are read as replacement characters. Every such piece takes at least one
byte, so that a text cannot come back from far fewer bytes than its own.

* `leadByte?_ofNat` -- how a first byte goes on, by its number;
* `scan_encodeChar` -- the bytes of a character scan as that character, whatever follows them;
* `decodeUtf8?_encodeUtf8` -- the bytes of a text decode to the text;
* `scansWithin_eq`, `length_scans_le` -- how many pieces bytes are read in;
* `scans_flatMap_append` -- the bytes of characters in front of others;
* `decodeUtf8Lossy_encodeUtf8` -- **the bytes of a text are read as the text**;
* `length_le_of_decodeUtf8Lossy_take` -- of the bytes of a text that are read as the text at most a
  few are missing.
-/

namespace InstrumentFlow.Text

/-! ## 1. Single bytes -/

theorem toNat_ofNat_of_lt {n : Nat} (h : n < 0x100) : (UInt8.ofNat n).toNat = n := by
  simp only [UInt8.toNat_ofNat']
  exact Nat.mod_eq_of_lt h

theorem ofNat_lt_iff {n : Nat} (h : n < 0x100) (b : UInt8) : UInt8.ofNat n < b ↔ n < b.toNat := by
  rw [UInt8.lt_iff_toNat_lt, toNat_ofNat_of_lt h]

theorem ofNat_eq_iff {n : Nat} (h : n < 0x100) (b : UInt8) : UInt8.ofNat n = b ↔ n = b.toNat := by
  rw [← UInt8.toNat_inj, toNat_ofNat_of_lt h]

/-- A first byte by its number. -/
theorem leadByte?_ofNat {n : Nat} (h : n < 0x100) :
    leadByte? (UInt8.ofNat n) =
      if n < 0x80 then some (0, n, 0x80, 0xBF)
      else if n < 0xC2 then none
      else if n < 0xE0 then some (1, n - 0xC0, 0x80, 0xBF)
      else if n = 0xE0 then some (2, 0, 0xA0, 0xBF)
      else if n = 0xED then some (2, 0xD, 0x80, 0x9F)
      else if n < 0xF0 then some (2, n - 0xE0, 0x80, 0xBF)
      else if n = 0xF0 then some (3, 0, 0x90, 0xBF)
      else if n < 0xF4 then some (3, n - 0xF0, 0x80, 0xBF)
      else if n = 0xF4 then some (3, 4, 0x80, 0x8F)
      else none := by
  simp only [leadByte?, ofNat_lt_iff h, ofNat_eq_iff h, toNat_ofNat_of_lt h, UInt8.reduceToNat]

/-- A byte that goes on a character gives its six low bits. -/
theorem scanTail_ofNat {low high : UInt8} {k : Nat} (hk : k < 0x40) (hl : low.toNat ≤ 0x80 + k)
    (hh : 0x80 + k ≤ high.toNat) (more bits size : Nat) (rest : List UInt8) :
    scanTail (more + 1) bits low high size (UInt8.ofNat (0x80 + k) :: rest) =
      scanTail more (bits * 0x40 + k) 0x80 0xBF (size + 1) rest := by
  have hb : 0x80 + k < 0x100 := by omega
  have hrange : low ≤ UInt8.ofNat (0x80 + k) ∧ UInt8.ofNat (0x80 + k) ≤ high := by
    simp only [UInt8.le_iff_toNat_le, toNat_ofNat_of_lt hb]
    exact ⟨hl, hh⟩
  rw [scanTail, if_pos hrange, toNat_ofNat_of_lt hb, Nat.add_sub_cancel_left]

/-! ## 2. Characters -/

theorem encodeChar_ne_nil (c : Char) : encodeChar c ≠ [] := by
  simp only [encodeChar]
  split_ifs <;> exact List.cons_ne_nil _ _

/-- **The bytes of a character scan as that character**, whatever follows them. The cases are the
    four lengths; the second byte of a longer form stays in the range that its first byte fixes. -/
theorem scan_encodeChar (c : Char) (rest : List UInt8) :
    scan (encodeChar c ++ rest) = some (.char c (encodeChar c).length) := by
  have hc : c.toNat < 0xD800 ∨ (0xDFFF < c.toNat ∧ c.toNat < 0x110000) := c.valid
  have hself : Char.ofNat c.toNat = c := Char.ofNat_toNat c
  unfold encodeChar
  generalize c.toNat = n at hc hself
  by_cases h1 : n < 0x80
  · simp only [if_pos h1, List.cons_append, List.nil_append, scan,
      leadByte?_ofNat (n := n) (by omega), scanTail, hself, List.length_singleton]
  by_cases h2 : n < 0x800
  · have hlead : leadByte? (UInt8.ofNat (0xC0 + n / 0x40)) = some (1, n / 0x40, 0x80, 0xBF) := by
      rw [leadByte?_ofNat (by omega), if_neg (by omega), if_neg (by omega), if_pos (by omega),
        Nat.add_sub_cancel_left]
    have hbits : n / 0x40 * 0x40 + n / 1 % 0x40 = n := by omega
    simp only [if_neg h1, if_pos h2, List.cons_append, List.nil_append, scan, hlead]
    rw [scanTail_ofNat (by omega) (by simp) (by simp; omega)]
    simp only [scanTail, hbits, hself, List.length_cons, List.length_nil]
  by_cases h3 : n < 0x10000
  · obtain ⟨low, high, hlead, hlow, hhigh⟩ : ∃ low high : UInt8,
        leadByte? (UInt8.ofNat (0xE0 + n / 0x1000)) = some (2, n / 0x1000, low, high) ∧
          low.toNat ≤ 0x80 + n / 0x40 % 0x40 ∧ 0x80 + n / 0x40 % 0x40 ≤ high.toNat := by
      rw [leadByte?_ofNat (by omega), if_neg (by omega), if_neg (by omega), if_neg (by omega)]
      split_ifs with he hd
      · exact ⟨0xA0, 0xBF, by simp; omega, by simp; omega, by simp; omega⟩
      · exact ⟨0x80, 0x9F, by simp; omega, by simp, by simp; omega⟩
      · exact ⟨0x80, 0xBF, by simp, by simp, by simp; omega⟩
      all_goals omega
    have hbits : (n / 0x1000 * 0x40 + n / 0x40 % 0x40) * 0x40 + n / 1 % 0x40 = n := by omega
    simp only [if_neg h1, if_neg h2, if_pos h3, List.cons_append, List.nil_append, scan, hlead]
    rw [scanTail_ofNat (by omega) hlow hhigh, scanTail_ofNat (by omega) (by simp) (by simp; omega)]
    simp only [scanTail, hbits, hself, List.length_cons, List.length_nil]
  · obtain ⟨low, high, hlead, hlow, hhigh⟩ : ∃ low high : UInt8,
        leadByte? (UInt8.ofNat (0xF0 + n / 0x40000)) = some (3, n / 0x40000, low, high) ∧
          low.toNat ≤ 0x80 + n / 0x1000 % 0x40 ∧ 0x80 + n / 0x1000 % 0x40 ≤ high.toNat := by
      rw [leadByte?_ofNat (by omega), if_neg (by omega), if_neg (by omega), if_neg (by omega),
        if_neg (by omega), if_neg (by omega), if_neg (by omega)]
      split_ifs with h0 h4 h5
      · exact ⟨0x90, 0xBF, by simp; omega, by simp; omega, by simp; omega⟩
      · exact ⟨0x80, 0xBF, by simp, by simp, by simp; omega⟩
      · exact ⟨0x80, 0x8F, by simp; omega, by simp, by simp; omega⟩
      all_goals omega
    have hbits : ((n / 0x40000 * 0x40 + n / 0x1000 % 0x40) * 0x40 + n / 0x40 % 0x40) * 0x40
        + n / 1 % 0x40 = n := by omega
    simp only [if_neg h1, if_neg h2, if_neg h3, List.cons_append, List.nil_append, scan, hlead]
    rw [scanTail_ofNat (by omega) hlow hhigh, scanTail_ofNat (by omega) (by simp) (by simp; omega),
      scanTail_ofNat (by omega) (by simp) (by simp; omega)]
    simp only [scanTail, hbits, hself, List.length_cons, List.length_nil]

/-! ## 3. Texts -/

/-- Enough scans read the bytes of characters one by one. -/
theorem scansWithin_flatMap (cs : List Char) :
    ∀ more, (cs.flatMap encodeChar).length ≤ more →
      scansWithin more (cs.flatMap encodeChar)
        = cs.map fun c => .char c (encodeChar c).length := by
  induction cs with
  | nil =>
    intro more _
    cases more <;> simp [scansWithin, scan]
  | cons c cs ih =>
    intro more hmore
    have hpos := List.length_pos_iff.2 (encodeChar_ne_nil c)
    rw [List.flatMap_cons, List.length_append] at hmore
    obtain ⟨more, rfl⟩ : ∃ m, more = m + 1 := ⟨more - 1, by omega⟩
    rw [List.flatMap_cons, scansWithin, scan_encodeChar]
    simp only [Scan.size, List.drop_left, List.map_cons]
    rw [ih more (by omega)]

theorem scans_flatMap (cs : List Char) :
    scans (cs.flatMap encodeChar) = cs.map fun c => .char c (encodeChar c).length :=
  scansWithin_flatMap cs _ (Nat.le_refl _)

/-- **The bytes of a text decode to the text.** -/
theorem decodeUtf8?_encodeUtf8 (s : String) : decodeUtf8? (encodeUtf8 s) = some s := by
  have hscans : scans (encodeUtf8 s) = s.toList.map fun c => .char c (encodeChar c).length :=
    scans_flatMap s.toList
  have hchars : (s.toList.map fun c => Scan.char c (encodeChar c).length).mapM Scan.char?
      = some s.toList := by
    rw [List.mapM_map]
    exact List.mapM_pure.trans (by simp)
  simp [decodeUtf8?, hscans, hchars]

/-! ## 4. Pieces -/

theorem size_scanTail_pos : ∀ (more bits : Nat) (low high : UInt8) (size : Nat)
    (rest : List UInt8), 0 < size → 0 < (scanTail more bits low high size rest).size
  | 0, _, _, _, _, _, h => h
  | _ + 1, _, _, _, _, [], h => h
  | more + 1, bits, low, high, size, b :: rest, h => by
    rw [scanTail]
    split
    · exact size_scanTail_pos more _ _ _ (size + 1) rest (Nat.succ_pos size)
    · exact h

/-- Every piece takes at least one byte. -/
theorem size_pos_of_scan {bytes : List UInt8} {s : Scan} (h : scan bytes = some s) :
    0 < s.size := by
  unfold scan at h
  split at h
  · cases h
  · split at h <;> obtain rfl := Option.some.inj h
    · exact Nat.one_pos
    · exact size_scanTail_pos _ _ _ _ 1 _ Nat.one_pos

theorem length_scansWithin_le (more : Nat) : ∀ bytes : List UInt8,
    (scansWithin more bytes).length ≤ bytes.length := by
  induction more with
  | zero => exact fun _ => Nat.zero_le _
  | succ more ih =>
    intro bytes
    unfold scansWithin
    split
    · exact Nat.zero_le _
    · next s hs =>
      have hsize := size_pos_of_scan hs
      have hne : bytes ≠ [] := by
        rintro rfl
        cases hs
      have hlength := List.length_pos_iff.mpr hne
      have hrest := ih (bytes.drop s.size)
      rw [List.length_drop] at hrest
      rw [List.length_cons]
      omega

theorem length_scans_le (bytes : List UInt8) : (scans bytes).length ≤ bytes.length :=
  length_scansWithin_le bytes.length bytes

/-- As many scans as there are bytes are enough. -/
theorem scansWithin_eq_of_le {more more' : Nat} : ∀ {bytes : List UInt8}, bytes.length ≤ more →
    bytes.length ≤ more' → scansWithin more bytes = scansWithin more' bytes := by
  induction more generalizing more' with
  | zero =>
    intro bytes h h'
    obtain rfl := List.length_eq_zero_iff.mp (Nat.le_zero.mp h)
    cases more' <;> rfl
  | succ more ih =>
    intro bytes h h'
    cases more' with
    | zero =>
      obtain rfl := List.length_eq_zero_iff.mp (Nat.le_zero.mp h')
      rfl
    | succ more' =>
      unfold scansWithin
      cases hs : scan bytes with
      | none => rfl
      | some s =>
        have hsize := size_pos_of_scan hs
        have hlength : (bytes.drop s.size).length = bytes.length - s.size := List.length_drop
        have hrest : scansWithin more (bytes.drop s.size) = scansWithin more' (bytes.drop s.size) :=
          ih (by omega) (by omega)
        simp only [hrest]

/-- **The bytes of characters in front of others** are read as the characters. -/
theorem scans_flatMap_append (cs : List Char) (rest : List UInt8) :
    scans (cs.flatMap encodeChar ++ rest)
      = (cs.map fun c => .char c (encodeChar c).length) ++ scans rest := by
  induction cs with
  | nil => rfl
  | cons c cs ih =>
    have hpos := List.length_pos_iff.mpr (encodeChar_ne_nil c)
    rw [List.flatMap_cons, List.append_assoc]
    generalize hmore : cs.flatMap encodeChar ++ rest = more at ih
    obtain ⟨n, hn⟩ : ∃ n, (encodeChar c ++ more).length = n + 1 :=
      ⟨(encodeChar c ++ more).length - 1, by rw [List.length_append]; omega⟩
    have hle : more.length ≤ n := by
      rw [List.length_append] at hn
      omega
    have hrest : scansWithin n more = scans more := scansWithin_eq_of_le hle (Nat.le_refl _)
    rw [scans, hn, scansWithin, scan_encodeChar]
    simp only [Scan.size, List.drop_left, hrest, ih, List.map_cons, List.cons_append]

/-! ## 5. Texts from any bytes -/

/-- **The bytes of a text are read as the text.** -/
theorem decodeUtf8Lossy_encodeUtf8 (s : String) : decodeUtf8Lossy (encodeUtf8 s) = s := by
  rw [decodeUtf8Lossy, encodeUtf8, scans_flatMap, List.map_map, Function.comp_def]
  simp only [Scan.shown, List.map_id', String.ofList_toList]

theorem length_encodeChar_le (c : Char) : (encodeChar c).length ≤ 4 := by
  unfold encodeChar
  dsimp only
  split_ifs <;> simp

theorem length_flatMap_encodeChar_le (cs : List Char) :
    (cs.flatMap encodeChar).length ≤ 4 * cs.length := by
  induction cs with
  | nil => exact Nat.le_refl 0
  | cons c cs ih =>
    have hc := length_encodeChar_le c
    rw [List.flatMap_cons, List.length_append, List.length_cons]
    omega

/-- The first bytes of characters are those of some of them, and less than one more. -/
theorem take_flatMap_encodeChar (n : Nat) (cs : List Char) : ∃ front back piece, cs = front ++ back
    ∧ (cs.flatMap encodeChar).take n = front.flatMap encodeChar ++ piece ∧ piece.length < 4 := by
  induction cs generalizing n with
  | nil => exact ⟨[], [], [], rfl, by simp, by decide⟩
  | cons c cs ih =>
    have hc := length_encodeChar_le c
    by_cases hn : n < (encodeChar c).length
    · refine ⟨[], c :: cs, (encodeChar c).take n, rfl, ?_, ?_⟩
      · rw [List.flatMap_cons, List.take_append_of_le_length (Nat.le_of_lt hn)]
        rfl
      · rw [List.length_take]
        omega
    · obtain ⟨front, back, piece, hcs, htake, hpiece⟩ := ih (n - (encodeChar c).length)
      refine ⟨c :: front, back, piece, by rw [hcs, List.cons_append], ?_, hpiece⟩
      rw [List.flatMap_cons, List.take_append, List.take_of_length_le (Nat.le_of_not_lt hn), htake,
        List.flatMap_cons, List.append_assoc]

/-- **A text does not come back from far fewer bytes** than its own. -/
theorem length_le_of_decodeUtf8Lossy_take {s : String} {n : Nat}
    (h : decodeUtf8Lossy ((encodeUtf8 s).take n) = s) : (encodeUtf8 s).length ≤ n + 12 := by
  obtain ⟨front, back, piece, hback, htake, hpiece⟩ := take_flatMap_encodeChar n s.toList
  have hscans := length_scans_le piece
  have hcount : (decodeUtf8Lossy ((encodeUtf8 s).take n)).toList.length
      = front.length + (scans piece).length := by
    rw [decodeUtf8Lossy, encodeUtf8, htake, scans_flatMap_append, String.toList_ofList]
    simp
  have hrest := length_flatMap_encodeChar_le back
  have hfront : (front.flatMap encodeChar).length ≤ n := by
    have hlength := congrArg List.length htake
    rw [List.length_take, List.length_append] at hlength
    omega
  have hwhole : (encodeUtf8 s).length
      = (front.flatMap encodeChar).length + (back.flatMap encodeChar).length := by
    rw [encodeUtf8, hback, List.flatMap_append, List.length_append]
  rw [h, hback, List.length_append] at hcount
  omega

end InstrumentFlow.Text
