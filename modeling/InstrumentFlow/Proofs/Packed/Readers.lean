import InstrumentFlow.Asset.Packed
import InstrumentFlow.Proofs.Text.Utf8
import Mathlib.Algebra.Group.Nat.Defs

/-!
# Readers of packed bytes

Two properties of a reader, each kept by everything that readers are built with:

* `Reads get bytes a` -- the reader takes exactly `bytes` for `a`, whatever follows them;
* `Local get` -- the reader looks no further than what it takes, so that more bytes behind change
  nothing about what it reads;
* `Local.none_of_prefix` -- from both: the reader finds nothing in a proper front of `bytes`;
* `reads_nat`, `reads_text`, `reads_list`, `reads_optional` -- what the writers write is read back,
  as long as every length fits into eight bytes.
-/

namespace InstrumentFlow.Packed

open Numeric (twoTo)

variable {α β : Type}

/-! ## 1. The two properties -/

/-- **The reader takes exactly `bytes` for `a`.** -/
def Reads (get : Reader α) (bytes : List UInt8) (a : α) : Prop :=
  ∀ rest, get (bytes ++ rest) = some (a, rest)

/-- **The reader looks no further than what it takes.** -/
def Local (get : Reader α) : Prop :=
  ∀ ⦃bytes a rest⦄, get bytes = some (a, rest) → ∀ more, get (bytes ++ more) = some (a, rest ++ more)

/-- **In a proper front of what it takes the reader finds nothing.** What it found there it would
    also find in the whole, with bytes left over. -/
theorem Local.none_of_prefix {get : Reader α} (hl : Local get) {bytes front : List UInt8} {a : α}
    (hr : Reads get bytes a) (hfront : front <+: bytes) (hne : front ≠ bytes) :
    get front = none := by
  obtain ⟨more, rfl⟩ := hfront
  cases hget : get front with
  | none => rfl
  | some found =>
    obtain ⟨b, rest⟩ := found
    have hwhole : get (front ++ more) = some (a, []) := by simpa using hr []
    rw [hl hget more, Option.some.injEq, Prod.mk.injEq, List.append_eq_nil_iff] at hwhole
    exact absurd (by rw [hwhole.2.2, List.append_nil]) hne

theorem Reads.map {get : Reader α} {bytes : List UInt8} {a : α} (h : Reads get bytes a)
    (f : α → β) : Reads (Reader.map f get) bytes (f a) := fun rest => by
  simp only [Reader.map, h rest, Option.map_some]

theorem Local.map {get : Reader α} (h : Local get) (f : α → β) : Local (Reader.map f get) := by
  intro bytes b rest hb more
  simp only [Reader.map, Option.map_eq_some_iff, Prod.mk.injEq] at hb ⊢
  obtain ⟨⟨a, rest'⟩, ha, rfl, rfl⟩ := hb
  exact ⟨(a, rest' ++ more), h ha more, rfl, rfl⟩

/-- A reader that goes on with what another one left looks no further than both. -/
theorem Local.bind {get : Reader α} {next : α × List UInt8 → Option (β × List UInt8)}
    (hl : Local get) (hn : ∀ a, Local fun rest => next (a, rest)) :
    Local fun bytes => (get bytes).bind next := by
  intro bytes b rest h more
  simp only [Option.bind_eq_some_iff, Prod.exists] at h ⊢
  obtain ⟨a, left, ha, hb⟩ := h
  exact ⟨a, left ++ more, hl ha more, hn a hb more⟩

theorem local_some (a : α) : Local fun rest => some (a, rest) := by
  intro bytes b rest h more
  obtain ⟨rfl, rfl⟩ : a = b ∧ bytes = rest := by simpa using h
  rfl

/-! ## 2. Numbers -/

theorem reads_fixed : ∀ {width n : Nat},
    n < 256 ^ width → Reads (getFixed width) (putFixed width n) n
  | 0, n, h, rest => by
    obtain rfl : n = 0 := by simpa using h
    rfl
  | width + 1, n, h, rest => by
    have hdiv : n / 256 < 256 ^ width := by
      rw [Nat.pow_succ] at h
      omega
    have hmod : n % 256 + 256 * (n / 256) = n := Nat.mod_add_div n 256
    simp only [putFixed, List.cons_append, getFixed, reads_fixed hdiv rest, UInt8.toNat_ofNat',
      Nat.reducePow, hmod]

theorem local_fixed : ∀ width, Local (getFixed width)
  | 0, bytes, a, rest, h, more => by
    obtain ⟨rfl, rfl⟩ : 0 = a ∧ bytes = rest := by simpa [getFixed] using h
    rfl
  | width + 1, [], a, rest, h, more => by cases h
  | width + 1, b :: bytes, a, rest, h, more => by
    rw [getFixed] at h
    cases hn : getFixed width bytes with
    | none => simp [hn] at h
    | some found =>
      obtain ⟨rfl, rfl⟩ : b.toNat + 256 * found.1 = a ∧ found.2 = rest := by simpa [hn] using h
      rw [List.cons_append, getFixed, local_fixed width hn more]

/-- A number behind its marker byte. -/
theorem reads_marked {marker : UInt8} {width widest n : Nat} (hmarker : ¬ marker < 251)
    (hw : markerWidth? marker = some width) (hle : width ≤ widest) (hn : n < 256 ^ width) :
    Reads (getNat widest) (marker :: putFixed width n) n := fun rest => by
  simp only [List.cons_append, getNat, if_neg hmarker, hw, if_pos hle, reads_fixed hn rest]

/-- **A number is read back** by every reader that takes its width. -/
theorem reads_nat {widest n : Nat} (hw : widest = 2 ∨ widest = 4 ∨ widest = 8)
    (hn : n < 256 ^ widest) : Reads (getNat widest) (putNat n) n := by
  have h16 : twoTo 16 = 256 ^ 2 := rfl
  have h32 : twoTo 32 = 256 ^ 4 := rfl
  have h64 : twoTo 64 = 256 ^ 8 := rfl
  rw [putNat, h16, h32, h64]
  by_cases h1 : n < 251
  · intro rest
    have hb : UInt8.ofNat n < 251 := (Text.ofNat_lt_iff (by omega) 251).2 h1
    simp only [if_pos h1, List.singleton_append, getNat, if_pos hb,
      Text.toNat_ofNat_of_lt (n := n) (by omega)]
  by_cases h2 : n < 256 ^ 2
  · rw [if_neg h1, if_pos h2]
    exact reads_marked (by decide) rfl (by omega) h2
  by_cases h3 : n < 256 ^ 4
  · rw [if_neg h1, if_neg h2, if_pos h3]
    refine reads_marked (by decide) rfl ?_ h3
    rcases hw with rfl | hw
    · exact absurd hn h2
    · omega
  · rcases hw with rfl | rfl | rfl
    · exact absurd hn h2
    · exact absurd hn h3
    · rw [if_neg h1, if_neg h2, if_neg h3, if_pos hn]
      exact reads_marked (by decide) rfl (Nat.le_refl 8) hn

theorem local_nat (widest : Nat) : Local (getNat widest)
  | [], a, rest, h, more => by cases h
  | b :: bytes, a, rest, h, more => by
    rw [getNat] at h
    rw [List.cons_append, getNat]
    split_ifs at h ⊢ with hb
    · simp only [Option.some.injEq, Prod.mk.injEq] at h ⊢
      exact ⟨h.1, by rw [h.2]⟩
    · cases hwidth : markerWidth? b with
      | none => simp [hwidth] at h
      | some width =>
        simp only [hwidth] at h ⊢
        split_ifs at h ⊢ with hle
        exact local_fixed width h more

theorem putNat_ne_nil (n : Nat) : putNat n ≠ [] := by
  rw [putNat]
  split_ifs <;> exact List.cons_ne_nil _ _

theorem one_le_length_putNat (n : Nat) : 1 ≤ (putNat n).length :=
  List.length_pos_iff.2 (putNat_ne_nil n)

/-- Signed numbers come back from the whole ones they were folded onto. -/
theorem unfoldInt_foldInt (i : Int) : unfoldInt (foldInt i) = i := by
  unfold unfoldInt foldInt
  split_ifs <;> omega

/-! ## 3. Bytes, words, truth values and texts -/

theorem reads_byte (b : UInt8) : Reads getByte [b] b := fun _ => rfl

theorem local_byte : Local getByte
  | [], a, rest, h, more => by cases h
  | b :: bytes, a, rest, h, more => by
    obtain ⟨rfl, rfl⟩ : b = a ∧ bytes = rest := by simpa [getByte] using h
    rfl

theorem reads_word16 (n : UInt16) : Reads getWord16 (putWord16 n) n := by
  have h := (reads_nat (.inl rfl) n.toNat_lt).map UInt16.ofNat
  rwa [UInt16.ofNat_toNat] at h

theorem local_word16 : Local getWord16 := (local_nat 2).map _

/-- The numbers of alternatives are all small. -/
theorem reads_tag {n : Nat} (h : n < 251) : Reads getTag (putNat n) n :=
  reads_nat (.inr (.inl rfl)) (by omega)

theorem local_tag : Local getTag := local_nat 4

theorem reads_length {n : Nat} (h : n < twoTo 64) : Reads getLength (putNat n) n :=
  reads_nat (.inr (.inr rfl)) h

theorem local_length : Local getLength := local_nat 8

theorem reads_boolean (b : Bool) : Reads getBoolean (putBoolean b) b := fun rest => by
  cases b <;> rfl

theorem local_boolean : Local getBoolean
  | [], a, rest, h, more => by cases h
  | b :: bytes, a, rest, h, more => by
    rw [getBoolean] at h
    rw [List.cons_append, getBoolean]
    split_ifs at h ⊢
    all_goals
      simp only [Option.some.injEq, Prod.mk.injEq] at h ⊢
      exact ⟨h.1, by rw [h.2]⟩

/-- **A text is read back**, all characters of it. -/
theorem reads_text {s : String} (h : (Text.encodeUtf8 s).length < twoTo 64) :
    Reads getText (putText s) s := fun rest => by
  have hfront : ¬ (Text.encodeUtf8 s ++ rest).length < (Text.encodeUtf8 s).length := by
    rw [List.length_append]
    omega
  simp only [putText, List.append_assoc, getText, reads_length h _, if_neg hfront, List.take_left,
    List.drop_left, Text.decodeUtf8?_encodeUtf8, Option.map_some]

theorem local_text : Local getText := by
  intro bytes s rest h more
  rw [getText] at h ⊢
  cases hlen : getLength bytes with
  | none => simp [hlen] at h
  | some found =>
    obtain ⟨length, front⟩ := found
    simp only [hlen] at h
    simp only [local_length hlen more]
    split_ifs at h with hlt
    have hle : length ≤ front.length := by omega
    have hlt' : ¬ (front ++ more).length < length := by
      rw [List.length_append]
      omega
    rw [if_neg hlt', List.take_append_of_le_length hle, List.drop_append_of_le_length hle]
    simp only [Option.map_eq_some_iff, Prod.mk.injEq] at h ⊢
    obtain ⟨t, ht, rfl, rfl⟩ := h
    exact ⟨t, ht, rfl, rfl⟩

/-! ## 4. Lists and optional things -/

/-- Items one after another are read back one after another. -/
theorem getMany_flatMap {get : Reader α} {put : α → List UInt8} (items : List α)
    (h : ∀ a ∈ items, Reads get (put a) a) (rest : List UInt8) :
    getMany get items.length (items.flatMap put ++ rest) = some (items, rest) := by
  induction items with
  | nil => rfl
  | cons a items ih =>
    have hhead := h a (List.mem_cons_self ..) (items.flatMap put ++ rest)
    have htail := ih fun b hb => h b (List.mem_cons_of_mem a hb)
    simp only [List.flatMap_cons, List.append_assoc, List.length_cons, getMany, hhead, htail]

/-- **A list is read back** by a reader that reads back its items. -/
theorem reads_list {get : Reader α} {put : α → List UInt8} {items : List α}
    (hlen : items.length < twoTo 64) (h : ∀ a ∈ items, Reads get (put a) a) :
    Reads (getList get) (putList put items) items := fun rest => by
  simp only [putList, List.append_assoc, getList, reads_length hlen _, getMany_flatMap items h rest]

theorem local_many {get : Reader α} (hl : Local get) : ∀ count, Local (getMany get count)
  | 0, bytes, as, rest, h, more => by
    obtain ⟨rfl, rfl⟩ : [] = as ∧ bytes = rest := by simpa [getMany] using h
    rfl
  | count + 1, bytes, as, rest, h, more => by
    rw [getMany] at h
    cases hhead : get bytes with
    | none => simp [hhead] at h
    | some head =>
      cases htail : getMany get count head.2 with
      | none => simp [hhead, htail] at h
      | some tail =>
        obtain ⟨rfl, rfl⟩ : head.1 :: tail.1 = as ∧ tail.2 = rest := by
          simpa [hhead, htail] using h
        simp only [getMany, hl hhead more, local_many hl count htail more]

theorem local_list {get : Reader α} (hl : Local get) : Local (getList get) := by
  intro bytes as rest h more
  rw [getList] at h ⊢
  cases hlen : getLength bytes with
  | none => simp [hlen] at h
  | some found =>
    simp only [hlen] at h
    simp only [local_length hlen more]
    exact local_many hl _ h more

theorem reads_bytes {bytes : List UInt8} (h : bytes.length < twoTo 64) :
    Reads getBytes (putBytes bytes) bytes := reads_list h fun b _ => reads_byte b

theorem local_bytes : Local getBytes := local_list local_byte

theorem reads_optional {get : Reader α} {put : α → List UInt8} (a? : Option α)
    (h : ∀ a, Reads get (put a) a) : Reads (getOptional get) (putOptional put a?) a? :=
  fun rest => by
  cases a? with
  | none => rfl
  | some a => exact (h a).map some rest

theorem local_optional {get : Reader α} (hl : Local get) : Local (getOptional get)
  | [], a, rest, h, more => by cases h
  | b :: bytes, a, rest, h, more => by
    rw [getOptional] at h
    rw [List.cons_append, getOptional]
    split_ifs at h ⊢
    · simp only [Option.some.injEq, Prod.mk.injEq] at h ⊢
      exact ⟨h.1, by rw [h.2]⟩
    · exact hl.map some h more

end InstrumentFlow.Packed
