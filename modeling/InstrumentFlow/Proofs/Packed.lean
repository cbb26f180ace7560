import InstrumentFlow.Proofs.Packed.Readers

/-!
# The bytes of a definition read back as the definition

The writers of the packed form have one reader each. For every pair: the reader takes exactly what
the writer wrote, and it looks no further than what it takes. Lengths are written in at most eight
bytes, so the texts and lists of a definition must be shorter than `2 ^ 64` (`Addressable`); the
contents are free.

* `Literal.Addressable`, `Definition.Addressable` -- every text and list is shorter than `2 ^ 64`;
* `Literal.reads_pack` -- literals, nested to any depth;
* `Component.reads_pack`, `Flow.reads_pack`, `Definition.reads_pack` -- the records;
* `Definition.ofBytes_toBytes` -- a sound definition comes back from its bytes, whatever follows
  them, and from no proper front of its bytes.
-/

namespace InstrumentFlow

open Numeric
open Packed

/-! ## 1. Lengths -/

mutual

/-- Every text and list of the literal is shorter than `2 ^ 64`. -/
def Literal.Addressable : Literal → Prop
  | .string s => (Text.encodeUtf8 s).length < twoTo 64
  | .array items => items.length < twoTo 64 ∧ Literal.AllAddressable items
  | _ => True

def Literal.AllAddressable : List Literal → Prop
  | [] => True
  | l :: ls => l.Addressable ∧ Literal.AllAddressable ls

end

theorem Literal.AllAddressable.of_mem : ∀ {ls : List Literal}, Literal.AllAddressable ls →
    ∀ {l}, l ∈ ls → l.Addressable
  | _ :: _, h, _, .head _ => h.1
  | _ :: _, h, _, .tail _ hl => Literal.AllAddressable.of_mem h.2 hl

/-- The lists of a component are shorter than `2 ^ 64`. -/
structure Component.Addressable (c : Component) : Prop where
  inputs : c.inputs.length < twoTo 64
  properties : c.properties.length < twoTo 64
  instructions : ∀ p ∈ c.properties, p.instructions.length < twoTo 64
  outputs : c.outputs.length < twoTo 64
  connections : ∀ o ∈ c.outputs, o.connections.length < twoTo 64
  payload : c.payload.length < twoTo 64

structure Flow.Addressable (f : Flow) : Prop where
  name : (Text.encodeUtf8 f.name).length < twoTo 64
  components : f.components.length < twoTo 64
  component : ∀ c ∈ f.components, c.Addressable
  inputFlags : f.inputFlags.length < twoTo 64
  locals : f.locals.length < twoTo 64
  literal : Literal.AllAddressable f.locals

/-- **Every text and list of the definition is shorter than `2 ^ 64`.** -/
structure Definition.Addressable (d : Definition) : Prop where
  flows : d.flows.length < twoTo 64
  flow : ∀ f ∈ d.flows, f.Addressable
  constants : d.constants.length < twoTo 64
  constant : Literal.AllAddressable d.constants
  globals : d.globals.length < twoTo 64
  global : Literal.AllAddressable d.globals

/-! ## 2. Literals -/

namespace Literal

/-- What stands behind the number of an alternative; `inner` reads the items of an array. -/
def unpackBody (inner : Reader Literal) : Nat → Reader Literal
  | 0 => fun rest => some (.undefined, rest)
  | 1 => fun rest => some (.null, rest)
  | 2 => Reader.map (fun n => .int (Int32.ofInt (unfoldInt n))) (getNat 4)
  | 3 => Reader.map (fun n => .float ⟨BitVec.ofNat _ n⟩) (getFixed 4)
  | 4 => Reader.map (fun n => .double ⟨BitVec.ofNat _ n⟩) (getFixed 8)
  | 5 => Reader.map .boolean getBoolean
  | 6 => Reader.map .string getText
  | 7 => Reader.map .array (getList inner)
  | _ => fun _ => none

theorem unpackWithin_succ (depth : Nat) (bytes : List UInt8) :
    unpackWithin (depth + 1) bytes =
      (getTag bytes).bind fun found => unpackBody (unpackWithin depth) found.1 found.2 := by
  rw [unpackWithin]
  cases getTag bytes with
  | none => rfl
  | some found =>
    obtain ⟨tag, rest⟩ := found
    match tag with
    | 0 | 1 | 2 | 3 | 4 | 5 | 6 | 7 | _ + 8 => rfl

theorem local_unpackBody {inner : Reader Literal} (hl : Local inner) :
    ∀ tag, Local (unpackBody inner tag)
  | 0 | 1 => by
    intro bytes l rest h more
    obtain ⟨rfl, rfl⟩ : _ = l ∧ bytes = rest := by simpa [unpackBody] using h
    rfl
  | 2 => Local.map (local_nat 4) fun n => Literal.int (Int32.ofInt (unfoldInt n))
  | 3 => Local.map (local_fixed 4) fun n => Literal.float ⟨BitVec.ofNat _ n⟩
  | 4 => Local.map (local_fixed 8) fun n => Literal.double ⟨BitVec.ofNat _ n⟩
  | 5 => local_boolean.map _
  | 6 => local_text.map _
  | 7 => (local_list hl).map _
  | _ + 8 => by
    intro bytes l rest h more
    cases h

theorem local_unpackWithin : ∀ depth, Local (unpackWithin depth)
  | 0 => by
    intro bytes l rest h more
    cases h
  | depth + 1 => by
    intro bytes l rest h more
    rw [unpackWithin_succ, Option.bind_eq_some_iff] at h
    obtain ⟨found, htag, hbody⟩ := h
    rw [unpackWithin_succ, local_tag htag more]
    exact local_unpackBody (local_unpackWithin depth) _ hbody more

/-! What is found within some depth is found within every greater one. -/

theorem getMany_mono {α : Type} {get get' : Reader α}
    (h : ∀ {bytes found}, get bytes = some found → get' bytes = some found) :
    ∀ {count bytes found}, getMany get count bytes = some found →
      getMany get' count bytes = some found
  | 0, _, _, hmany => hmany
  | count + 1, bytes, found, hmany => by
    rw [getMany] at hmany ⊢
    cases hhead : get bytes with
    | none => simp [hhead] at hmany
    | some head =>
      cases htail : getMany get count head.2 with
      | none => simp [hhead, htail] at hmany
      | some tail =>
        simp only [hhead, htail] at hmany
        simp only [h hhead, getMany_mono h htail, hmany]

theorem unpackBody_mono {inner inner' : Reader Literal}
    (h : ∀ {bytes found}, inner bytes = some found → inner' bytes = some found) :
    ∀ {tag bytes found}, unpackBody inner tag bytes = some found →
      unpackBody inner' tag bytes = some found
  | 0, _, _, hb | 1, _, _, hb | 2, _, _, hb | 3, _, _, hb | 4, _, _, hb | 5, _, _, hb
  | 6, _, _, hb => hb
  | 7, bytes, found, hb => by
    simp only [unpackBody, Reader.map, Option.map_eq_some_iff, getList] at hb ⊢
    obtain ⟨items, hitems, rfl⟩ := hb
    refine ⟨items, ?_, rfl⟩
    cases hlen : getLength bytes with
    | none => simp [hlen] at hitems
    | some count =>
      simp only [hlen] at hitems ⊢
      exact getMany_mono h hitems
  | _ + 8, _, _, hb => by cases hb

theorem unpackWithin_mono : ∀ {depth depth' bytes found}, depth ≤ depth' →
    unpackWithin depth bytes = some found → unpackWithin depth' bytes = some found
  | 0, _, _, _, _, h => by cases h
  | depth + 1, 0, _, _, hle, _ => by omega
  | depth + 1, depth' + 1, bytes, found, hle, h => by
    rw [unpackWithin_succ, Option.bind_eq_some_iff] at h ⊢
    obtain ⟨tag, htag, hbody⟩ := h
    exact ⟨tag, htag, unpackBody_mono (unpackWithin_mono (by omega)) hbody⟩

theorem local_unpack : Local unpack := by
  intro bytes l rest h more
  have hwhole := local_unpackWithin _ h more
  refine unpackWithin_mono ?_ hwhole
  rw [List.length_append]
  omega

/-! Every literal is read back. The bytes of an array are longer than those of its items, so they
    bound the depth that the items need. -/

theorem reads_body {tag : Nat} {body : List UInt8} {depth : Nat} {l : Literal} (htag : tag < 251)
    (h : Reads (unpackBody (unpackWithin depth) tag) body l) :
    Reads (unpackWithin (depth + 1)) (putNat tag ++ body) l := fun rest => by
  rw [unpackWithin_succ, List.append_assoc, reads_tag htag (body ++ rest), Option.bind_some]
  exact h rest

theorem reads_bits {f : Format} {width : Nat} (hw : 256 ^ width = 2 ^ f.width) (x : Binary f)
    (wrap : Binary f → Literal) :
    Reads (Reader.map (fun n => wrap ⟨BitVec.ofNat _ n⟩) (getFixed width))
      (putFixed width x.bits.toNat) (wrap x) := by
  have hx : x.bits.toNat < 256 ^ width := by
    rw [hw]
    exact x.bits.isLt
  have h := (reads_fixed hx).map fun n => wrap ⟨BitVec.ofNat f.width n⟩
  simpa only [BitVec.ofNat_toNat, BitVec.setWidth_eq] using h

theorem reads_int (i : Int32) :
    Reads (Reader.map (fun n => Literal.int (Int32.ofInt (unfoldInt n))) (getNat 4))
      (putNat (foldInt i.toInt)) (.int i) := by
  have hi : foldInt i.toInt < 256 ^ 4 := by
    have hlow := i.le_toInt
    have hhigh := i.toInt_lt
    unfold foldInt
    split_ifs <;> omega
  have h := (reads_nat (.inr (.inl rfl)) hi).map fun n => Literal.int (Int32.ofInt (unfoldInt n))
  simpa only [unfoldInt_foldInt, Int32.ofInt_toInt] using h

mutual

/-- **A literal is read back** within any depth that its own bytes bound. -/
theorem reads_pack : ∀ (l : Literal) {depth : Nat}, l.Addressable → l.pack.length ≤ depth →
    Reads (unpackWithin (depth + 1)) l.pack l
  | .undefined, _, _, _ => fun rest => by
    rw [unpackWithin_succ, pack, reads_tag (n := 0) (by decide) rest]
    rfl
  | .null, _, _, _ => fun rest => by
    rw [unpackWithin_succ, pack, reads_tag (n := 1) (by decide) rest]
    rfl
  | .int i, _, _, _ => reads_body (by decide) (reads_int i)
  | .float x, _, _, _ => reads_body (by decide) (reads_bits rfl x .float)
  | .double x, _, _, _ => reads_body (by decide) (reads_bits rfl x .double)
  | .boolean b, _, _, _ => reads_body (by decide) ((reads_boolean b).map boolean)
  | .string s, _, ha, _ => reads_body (by decide) ((reads_text ha).map string)
  | .array items, depth, ha, hle => by
    have htag := one_le_length_putNat 7
    rw [pack, List.append_assoc, List.length_append, List.length_append] at hle
    obtain ⟨depth, rfl⟩ : ∃ m, depth = m + 1 := ⟨depth - 1, by omega⟩
    have hitems : Reads (getList (unpackWithin (depth + 1)))
        (putNat items.length ++ packList items) items := fun rest => by
      simp only [List.append_assoc, getList, reads_length ha.1 _]
      exact getMany_packList items ha.2 (by omega) rest
    rw [pack, List.append_assoc]
    exact reads_body (by decide) (hitems.map array)

/-- Literals one after another are read back one after another. -/
theorem getMany_packList : ∀ (ls : List Literal) {depth : Nat}, AllAddressable ls →
    (packList ls).length ≤ depth → ∀ rest,
      getMany (unpackWithin (depth + 1)) ls.length (packList ls ++ rest) = some (ls, rest)
  | [], _, _, _, _ => rfl
  | l :: ls, depth, ha, hle, rest => by
    rw [packList, List.length_append] at hle
    have hfirst : l.pack.length ≤ depth := by omega
    have hothers : (packList ls).length ≤ depth := by omega
    have hhead := reads_pack l ha.1 hfirst (packList ls ++ rest)
    have htail := getMany_packList ls ha.2 hothers rest
    simp only [packList, List.append_assoc, List.length_cons, getMany, hhead, htail]

end

theorem reads_unpack {l : Literal} (h : l.Addressable) : Reads unpack l.pack l := fun rest =>
  reads_pack l h (by rw [List.length_append]; omega) rest

end Literal

/-! ## 3. Components -/

namespace Kind

theorem reads_numbered (k : Kind) (h : k ∈ numbered) :
    Reads unpack (putNat (numbered.idxOf k)) k := fun rest => by
  have hlt : numbered.idxOf k < numbered.length := List.idxOf_lt_length_of_mem h
  have hlen : numbered.length = 15 := rfl
  have hget : numbered[numbered.idxOf k]? = some k := by
    rw [List.getElem?_eq_getElem hlt, List.getElem_idxOf]
  rw [unpack, reads_tag (by omega) rest]
  simp only [if_neg (Nat.ne_of_lt hlt), hget]

/-- The host's kind stands last in the order, and its code behind it. -/
theorem reads_pack (k : Kind) : Reads unpack k.pack k := by
  cases k with
  | host code =>
    intro rest
    have htag := reads_tag (n := numbered.length) (by decide) (putWord16 code ++ rest)
    rw [pack, List.append_assoc, unpack, htag]
    simp only [if_pos]
    exact (reads_word16 code).map host rest
  | _ => exact reads_numbered _ (by decide)

theorem local_unpack : Local unpack := by
  intro bytes k rest h more
  rw [unpack] at h ⊢
  cases htag : getTag bytes with
  | none => simp [htag] at h
  | some found =>
    simp only [htag] at h
    simp only [local_tag htag more]
    split_ifs at h ⊢
    · exact local_word16.map host h more
    · cases hk : numbered[found.1]? with
      | none => simp [hk] at h
      | some k' =>
        simp only [hk, Option.some.injEq, Prod.mk.injEq] at h ⊢
        exact ⟨h.1, by rw [h.2]⟩

end Kind

namespace Connection

theorem reads_pack (c : Connection) : Reads unpack c.pack c := fun rest => by
  simp only [pack, unpack, List.append_assoc, reads_word16 _ _, reads_boolean _ _,
    Option.bind_eq_bind, Option.bind_some]

theorem local_unpack : Local unpack :=
  local_word16.bind fun _ => local_word16.bind fun _ => local_boolean.bind fun _ => local_some _

end Connection

namespace Output

theorem reads_pack (o : Output) (h : o.connections.length < twoTo 64) : Reads unpack o.pack o :=
  fun rest => by
    have hconnections := reads_list h fun c _ => c.reads_pack
    simp only [pack, unpack, List.append_assoc, reads_boolean _ _, hconnections _,
      Option.bind_eq_bind, Option.bind_some]

theorem local_unpack : Local unpack :=
  local_boolean.bind fun _ => (local_list Connection.local_unpack).bind fun _ => local_some _

end Output

namespace Property

theorem reads_pack (p : Property) (h : p.instructions.length < twoTo 64) :
    Reads unpack p.pack p := (reads_bytes h).map Property.mk

theorem local_unpack : Local unpack := local_bytes.map _

end Property

namespace Component

/-- **A component is read back**, field by field. -/
theorem reads_pack (c : Component) (h : c.Addressable) : Reads unpack c.pack c := fun rest => by
  have hinputs := reads_list h.inputs fun n _ => reads_word16 n
  have hproperties := reads_list h.properties fun p hp => p.reads_pack (h.instructions p hp)
  have houtputs := reads_list h.outputs fun o ho => o.reads_pack (h.connections o ho)
  have hcatch := reads_optional c.catchOutput reads_word16
  have hpayload := reads_bytes h.payload
  simp only [pack, unpack, List.append_assoc, c.kind.reads_pack _, reads_boolean _ _, hinputs _,
    hproperties _, houtputs _, hcatch _, hpayload _, Option.bind_eq_bind, Option.bind_some]

theorem local_unpack : Local unpack :=
  Kind.local_unpack.bind fun _ => local_boolean.bind fun _ =>
    (local_list local_word16).bind fun _ => (local_list Property.local_unpack).bind fun _ =>
      (local_list Output.local_unpack).bind fun _ => (local_optional local_word16).bind fun _ =>
        local_bytes.bind fun _ => local_some _

end Component

/-! ## 4. Flows and definitions -/

/-- Literals in a list of their own. -/
theorem Literal.reads_list {ls : List Literal} (hlen : ls.length < twoTo 64)
    (h : Literal.AllAddressable ls) :
    Reads (getList Literal.unpack) (putList Literal.pack ls) ls :=
  Packed.reads_list hlen fun _ hl => Literal.reads_unpack (h.of_mem hl)

namespace Flow

theorem reads_pack (f : Flow) (h : f.Addressable) : Reads unpack f.pack f := fun rest => by
  have hname := reads_text h.name
  have hcomponents := reads_list h.components fun c hc => c.reads_pack (h.component c hc)
  have hflags := reads_bytes h.inputFlags
  have hlocals := Literal.reads_list h.locals h.literal
  simp only [pack, unpack, List.append_assoc, hname _, hcomponents _, hflags _, hlocals _,
    Option.bind_eq_bind, Option.bind_some]

theorem local_unpack : Local unpack :=
  local_text.bind fun _ => (local_list Component.local_unpack).bind fun _ =>
    local_bytes.bind fun _ => (local_list Literal.local_unpack).bind fun _ => local_some _

end Flow

namespace Definition

theorem reads_toBytes (d : Definition) (h : d.Addressable) : Reads unpack d.toBytes d :=
  fun rest => by
    have hflows := reads_list h.flows fun f hf => f.reads_pack (h.flow f hf)
    have hconstants := Literal.reads_list h.constants h.constant
    have hglobals := Literal.reads_list h.globals h.global
    simp only [toBytes, unpack, List.append_assoc, hflows _, hconstants _, hglobals _,
      Option.bind_eq_bind, Option.bind_some]

theorem local_unpack : Local unpack :=
  (local_list Flow.local_unpack).bind fun _ => (local_list Literal.local_unpack).bind fun _ =>
    (local_list Literal.local_unpack).bind fun _ => local_some _

/-- **A sound definition comes back from its bytes**, whatever follows them, and every proper front
    of its bytes fails to decode. Sound or not, the definition is compared with all its bits. -/
theorem ofBytes_toBytes (d : Definition) (hd : d.validate = .ok ()) (ha : d.Addressable) :
    (∀ rest, ofBytes (d.toBytes ++ rest) = .ok d) ∧
      ∀ front, front <+: d.toBytes → front ≠ d.toBytes → ofBytes front = .error .decode := by
  refine ⟨fun rest => ?_, fun front hfront hne => ?_⟩
  · rw [ofBytes, d.reads_toBytes ha rest]
    simp only [hd, Except.map]
  · rw [ofBytes, local_unpack.none_of_prefix (d.reads_toBytes ha) hfront hne]

/-- A flow with one component that fills every field, next to literals of every kind: a text
    outside of ASCII, a pattern without a number, arrays inside arrays. -/
def recordedDefinition : Definition where
  flows := [{
    name := "main"
    components := [{
      kind := .host 0x1234, breakpoint := true, inputs := [0], properties := [⟨[]⟩]
      outputs := [⟨true, [⟨0, 0, true⟩]⟩], catchOutput := some 0, payload := [7, 250, 251] }]
    inputFlags := [1]
    locals := [.array [.string "µV", .array [.int (-1000), .array []]]] }]
  constants := [.undefined, .null, .float Binary.nan, .boolean true]
  globals := [.double (Binary.ofInt 3)]

theorem recordedDefinition_addressable : recordedDefinition.Addressable where
  flows := by decide
  flow f hf := by
    obtain rfl : f = _ := List.mem_singleton.1 hf
    exact {
      name := by decide
      components := by decide
      component := fun c hc => by
        obtain rfl : c = _ := List.mem_singleton.1 hc
        exact ⟨by decide, by decide, by decide, by decide, by decide, by decide⟩
      inputFlags := by decide
      locals := by decide
      literal := by
        simp only [Literal.AllAddressable, Literal.Addressable]
        decide }
  constants := by decide
  constant := by simp only [recordedDefinition, Literal.AllAddressable, Literal.Addressable, and_self]
  globals := by decide
  global := by simp only [recordedDefinition, Literal.AllAddressable, Literal.Addressable, and_self]

theorem recordedDefinition_comes_back :
    recordedDefinition.validate = .ok () ∧ recordedDefinition.Addressable ∧
      (∀ rest, ofBytes (recordedDefinition.toBytes ++ rest) = .ok recordedDefinition) ∧
      ∀ front, front <+: recordedDefinition.toBytes → front ≠ recordedDefinition.toBytes →
        ofBytes front = .error .decode :=
  ⟨rfl, recordedDefinition_addressable,
    ofBytes_toBytes recordedDefinition rfl recordedDefinition_addressable⟩

end Definition

end InstrumentFlow
