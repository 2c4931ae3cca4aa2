import SelfDescribing.Factory.Basic
import SelfDescribing.Proofs.Bytes

namespace SelfDescribing

/-!
# Fingerprints of different shapes

A fingerprint is taken of a type's name and fields, which are joined with a zero before each field,
a colon before its type, and a mark after it.

* `Field.Delimited` — a field that has none of these separators in it.
* `fingerprint_separates` — fields without separators are told apart by their fingerprint.
* `fingerprint_joined` — other fields are not, since separators in a text are not escaped.

The digest enters as a hypothesis: on the two texts in question it does not collide.  Everything
else is about the text, which is cut at its separators from the left; a field that contains none of
them is found again, and so are the fields behind it.
-/

/-! ### Hexadecimal text -/

namespace Hex

/-- Hexadecimal digits are told apart. -/
theorem digit_injective : ∀ m < 16, ∀ n < 16, digit m = digit n → m = n := by decide

/-- The two digits of a byte determine it. -/
theorem byte_injective : Function.Injective byte := by
  intro b c h
  obtain ⟨hhigh, hrest⟩ := List.cons.inj h
  have hb := b.toNat_lt
  have hc := c.toNat_lt
  have high := digit_injective (b.toNat / 16) (by omega) (c.toNat / 16) (by omega) hhigh
  have low := digit_injective (b.toNat % 16) (by omega) (c.toNat % 16) (by omega)
    (List.cons.inj hrest).1
  apply UInt8.toNat_inj.1
  omega

/-- Bytes are told apart by their digits. -/
theorem encode_injective : Function.Injective encode := by
  intro bytes bytes' h
  replace h := String.ofList_injective h
  induction bytes generalizing bytes' with
  | nil =>
    cases bytes' with
    | nil => rfl
    | cons => simp [byte] at h
  | cons b bytes ih =>
    cases bytes' with
    | nil => simp [byte] at h
    | cons b' bytes' =>
      obtain ⟨hb, hbytes⟩ := List.append_inj h rfl
      rw [byte_injective hb, ih hbytes]

end Hex

/-! ### The bytes of a fingerprint -/

/-- What comes before the first separator is determined. -/
theorem eq_of_append_cons_eq {α : Type} {x : α} {front front' rest rest' : List α}
    (hfront : x ∉ front) (hfront' : x ∉ front')
    (h : front ++ x :: rest = front' ++ x :: rest') : front = front' ∧ rest = rest' := by
  induction front generalizing front' with
  | nil =>
    cases front' with
    | nil => exact ⟨rfl, (List.cons.inj h).2⟩
    | cons a' front' => exact absurd (List.cons.inj h).1 (List.ne_of_not_mem_cons hfront')
  | cons a front ih =>
    cases front' with
    | nil => exact absurd (List.cons.inj h).1.symm (List.ne_of_not_mem_cons hfront)
    | cons a' front' =>
      simp only [List.mem_cons, not_or] at hfront hfront'
      obtain ⟨ha, htail⟩ := List.cons.inj h
      obtain ⟨hsame, hrest⟩ := ih hfront.2 hfront'.2 htail
      exact ⟨by rw [ha, hsame], hrest⟩

namespace Field

/-- A field with no zero in its texts and no colon in its name. -/
structure Delimited (f : Field) : Prop where
  name_zero : '\x00' ∉ f.name.toList
  name_colon : ':' ∉ f.name.toList
  type_zero : '\x00' ∉ f.type.toList

/-- The mark after a field's type. -/
def mark (f : Field) : String := if f.mandatory then "!" else "?"

/-- The bytes that stand for a field, without the zero before them. -/
def bareBytes (f : Field) : List UInt8 :=
  utf8Bytes f.name ++ 0x3a :: (utf8Bytes f.type ++ [if f.mandatory then 0x21 else 0x3f])

theorem fingerprintBytes_eq (f : Field) : f.fingerprintBytes = 0 :: f.bareBytes := rfl

/-- The mark behind a field's type is one byte, an exclamation or a question mark. -/
theorem utf8Bytes_mark (f : Field) :
    utf8Bytes f.mark = [if f.mandatory then 0x21 else 0x3f] := by
  rw [mark]
  split <;> rfl

/-- There is no zero in the bytes of a field without one in its texts. -/
theorem Delimited.zero_notMem_bareBytes {f : Field} (hf : f.Delimited) : 0 ∉ f.bareBytes := by
  have hname : 0 ∉ utf8Bytes f.name :=
    fun h => hf.name_zero (mem_toList_of_mem_utf8Bytes (by decide) h)
  have htype : 0 ∉ utf8Bytes f.type :=
    fun h => hf.type_zero (mem_toList_of_mem_utf8Bytes (by decide) h)
  have hmark : ¬ 0 = (if f.mandatory then 0x21 else 0x3f : UInt8) := by
    split <;> decide
  simp [bareBytes, hname, htype, hmark]

/-- The first colon ends the name, and the last byte is the mark. -/
theorem Delimited.eq_of_bareBytes {f f' : Field} (hf : f.Delimited) (hf' : f'.Delimited)
    (h : f.bareBytes = f'.bareBytes) : f = f' := by
  have hcolon : ∀ {g : Field}, g.Delimited → 0x3a ∉ utf8Bytes g.name :=
    fun hg h => hg.name_colon (mem_toList_of_mem_utf8Bytes (by decide) h)
  obtain ⟨hname, hrest⟩ :=
    eq_of_append_cons_eq (hcolon hf) (hcolon hf') h
  obtain ⟨htype, hmark⟩ := List.append_inj' hrest rfl
  obtain ⟨name, type, mandatory⟩ := f
  obtain ⟨name', type', mandatory'⟩ := f'
  cases utf8Bytes_injective hname
  cases utf8Bytes_injective htype
  cases mandatory <;> cases mandatory' <;> first | rfl | cases hmark

end Field

/-- With a zero after them, the bytes of fields have a zero after each field. -/
theorem flatMap_fingerprintBytes_zero (fields : List Field) :
    fields.flatMap Field.fingerprintBytes ++ [0] =
      0 :: fields.flatMap (fun f => f.bareBytes ++ [0]) := by
  induction fields with
  | nil => rfl
  | cons f fields ih =>
    simp only [List.flatMap_cons, List.append_assoc, ih, Field.fingerprintBytes_eq,
      List.cons_append, List.nil_append]

/-- Each zero ends a field. -/
theorem eq_of_flatMap_bareBytes {fields fields' : List Field}
    (hfields : ∀ f ∈ fields, f.Delimited) (hfields' : ∀ f ∈ fields', f.Delimited)
    (h : fields.flatMap (fun f => f.bareBytes ++ [0]) =
      fields'.flatMap (fun f => f.bareBytes ++ [0])) : fields = fields' := by
  induction fields generalizing fields' with
  | nil =>
    cases fields' with
    | nil => rfl
    | cons => simp at h
  | cons f fields ih =>
    cases fields' with
    | nil => simp at h
    | cons f' fields' =>
      simp only [List.forall_mem_cons] at hfields hfields'
      simp only [List.flatMap_cons, List.append_assoc, List.cons_append, List.nil_append] at h
      obtain ⟨hbytes, hrest⟩ := eq_of_append_cons_eq
        hfields.1.zero_notMem_bareBytes hfields'.1.zero_notMem_bareBytes h
      rw [hfields.1.eq_of_bareBytes hfields'.1 hbytes, ih hfields.2 hfields'.2 hrest]

/-- Fields without zeros and colons in their names are told apart by the bytes that are hashed. -/
theorem eq_of_flatMap_fingerprintBytes {fields fields' : List Field}
    (hfields : ∀ f ∈ fields, f.Delimited) (hfields' : ∀ f ∈ fields', f.Delimited)
    (h : fields.flatMap Field.fingerprintBytes = fields'.flatMap Field.fingerprintBytes) :
    fields = fields' := by
  have hzero := congrArg (· ++ [0]) h
  simp only [flatMap_fingerprintBytes_zero] at hzero
  exact eq_of_flatMap_bareBytes hfields hfields' (List.cons.inj hzero).2

/-- The first zero ends the type's name. -/
theorem eq_of_fingerprintBytes {n n' : String} {fields fields' : List Field}
    (hn : '\x00' ∉ n.toList) (hn' : '\x00' ∉ n'.toList)
    (hfields : ∀ f ∈ fields, f.Delimited) (hfields' : ∀ f ∈ fields', f.Delimited)
    (h : fingerprintBytes n fields = fingerprintBytes n' fields') : n = n' ∧ fields = fields' := by
  have hzero : ∀ {m : String}, '\x00' ∉ m.toList → 0 ∉ utf8Bytes m :=
    fun hm h => hm (mem_toList_of_mem_utf8Bytes (by decide) h)
  have hended := congrArg (· ++ [0]) h
  simp only [fingerprintBytes, List.append_assoc, flatMap_fingerprintBytes_zero] at hended
  obtain ⟨hname, hrest⟩ := eq_of_append_cons_eq (hzero hn) (hzero hn') hended
  exact ⟨utf8Bytes_injective hname, eq_of_flatMap_bareBytes hfields hfields' hrest⟩

/-! ### Fingerprints -/

section Fingerprint

variable {n n' : String} {fields fields' : List Field}

/-- The fingerprint is a digest of the bytes, and of nothing else. -/
theorem fingerprint_congr (h : fingerprintBytes n fields = fingerprintBytes n' fields') :
    fingerprint n fields = fingerprint n' fields' := by
  rw [fingerprint, fingerprint, h]

/-- Object descriptors are equal exactly if the fingerprints are. -/
theorem objectDescriptor_eq_iff : objectDescriptor n fields = objectDescriptor n' fields' ↔
    fingerprint n fields = fingerprint n' fields' := by
  simp [objectDescriptor]

/-- Where fingerprints differ, neither descriptor belongs to the other type. -/
theorem admits_objectDescriptor {ω : Type} (h : fingerprint n fields ≠ fingerprint n' fields') :
    (objectDescriptor n fields).admits ((objectDescriptor n' fields').toValue : Value ω) =
      false := by
  simp [objectDescriptor, Descriptor.admits, Descriptor.toValue, h]

/-- Where SHA-256 tells the bytes of two shapes apart, fingerprints are shared exactly by equal
bytes.  If the fields have no separators in them, the keys of cached codecs are shared by equal
shapes only, and if the names have no zero in them either, so are fingerprints and descriptors. -/
theorem fingerprint_separates
    (hdigest : Sha256.digest (fingerprintBytes n fields) =
      Sha256.digest (fingerprintBytes n' fields') →
        fingerprintBytes n fields = fingerprintBytes n' fields') :
    (fingerprint n fields = fingerprint n' fields' ↔
      fingerprintBytes n fields = fingerprintBytes n' fields') ∧
    ((∀ f ∈ fields, f.Delimited) → (∀ f ∈ fields', f.Delimited) →
      (∀ {old old' : CompositeType}, old.name = n → old.fields = fields →
        old'.name = n' → old'.fields = fields' →
        (Setting.evolutionKey old = Setting.evolutionKey old' ↔ n = n' ∧ fields = fields')) ∧
      ('\x00' ∉ n.toList → '\x00' ∉ n'.toList →
        (fingerprint n fields = fingerprint n' fields' ↔ n = n' ∧ fields = fields') ∧
        (objectDescriptor n fields = objectDescriptor n' fields' ↔
          n = n' ∧ fields = fields'))) := by
  have hbytes : fingerprint n fields = fingerprint n' fields' ↔
      fingerprintBytes n fields = fingerprintBytes n' fields' :=
    ⟨fun h => hdigest (Hex.encode_injective h), fingerprint_congr⟩
  refine ⟨hbytes, fun hfields hfields' => ⟨?_, fun hn hn' => ?_⟩⟩
  -- The name stands in the key besides the fingerprint, so that names may contain anything here.
  · rintro old old' rfl rfl rfl rfl
    constructor
    · intro hkey
      obtain ⟨hname, hfingerprint⟩ := Prod.mk.inj hkey
      have hsame := hbytes.1 hfingerprint
      rw [fingerprintBytes, fingerprintBytes, hname] at hsame
      exact ⟨hname, eq_of_flatMap_fingerprintBytes hfields hfields' (List.append_cancel_left hsame)⟩
    · rintro ⟨hname, hfields⟩
      rw [Setting.evolutionKey, Setting.evolutionKey, hname, hfields]
  -- In the fingerprint alone the name ends at its first separator.
  · have hshape : fingerprint n fields = fingerprint n' fields' ↔ n = n' ∧ fields = fields' := by
      constructor
      · exact fun h => eq_of_fingerprintBytes hn hn' hfields hfields' (hbytes.1 h)
      · rintro ⟨rfl, rfl⟩
        rfl
    exact ⟨hshape, objectDescriptor_eq_iff.trans hshape⟩

end Fingerprint

/-- The two orders of the fields of a pair have different fingerprints, descriptors and keys. -/
theorem fingerprint_separates_orders :
    let left : Field := ⟨"left", "string", true⟩
    let right : Field := ⟨"right", "string", true⟩
    Sha256.digest (fingerprintBytes "Pair" [left, right]) ≠
        Sha256.digest (fingerprintBytes "Pair" [right, left]) ∧
      fingerprint "Pair" [left, right] ≠ fingerprint "Pair" [right, left] ∧
      objectDescriptor "Pair" [left, right] ≠ objectDescriptor "Pair" [right, left] ∧
      Setting.evolutionKey ⟨"Pair", none, [], ⟨"pair", none⟩, [left, right]⟩ ≠
        Setting.evolutionKey ⟨"Pair", none, [], ⟨"pair", none⟩, [right, left]⟩ := by
  intro left right
  have hdigest : Sha256.digest (fingerprintBytes "Pair" [left, right]) ≠
      Sha256.digest (fingerprintBytes "Pair" [right, left]) := by decide +kernel
  have hleft : left.Delimited := ⟨by decide, by decide, by decide⟩
  have hright : right.Delimited := ⟨by decide, by decide, by decide⟩
  have horders : ¬ ("Pair" = "Pair" ∧ [left, right] = [right, left]) := by decide
  obtain ⟨-, h⟩ := fingerprint_separates (fun h => absurd h hdigest)
  obtain ⟨hkey, hshape⟩ := h (by simp [hleft, hright]) (by simp [hleft, hright])
  obtain ⟨hfingerprint, hdescriptor⟩ := hshape (by decide) (by decide)
  exact ⟨hdigest, fun h => horders (hfingerprint.1 h), fun h => horders (hdescriptor.1 h),
    fun h => horders ((hkey rfl rfl rfl rfl).1 h)⟩

/-- A field followed by another, as one field: the separators become part of its type. -/
def Field.joined (f g : Field) : Field :=
  ⟨f.name, f.type ++ f.mark ++ "\x00" ++ g.name ++ ":" ++ g.type, g.mandatory⟩

/-- Joined fields have the fingerprint of the fields that they are joined from. -/
theorem fingerprint_joined (n : String) (f g : Field) (before after : List Field) :
    fingerprint n (before ++ f.joined g :: after) = fingerprint n (before ++ f :: g :: after) := by
  apply fingerprint_congr
  have hjoined : (f.joined g).fingerprintBytes = f.fingerprintBytes ++ g.fingerprintBytes := by
    have hzero : utf8Bytes "\x00" = [0] := rfl
    have hcolon : utf8Bytes ":" = [0x3a] := rfl
    simp only [Field.fingerprintBytes, Field.joined, utf8Bytes_append, Field.utf8Bytes_mark, hzero,
      hcolon, List.append_assoc, List.cons_append, List.nil_append]
    rfl
  simp only [fingerprintBytes, List.flatMap_append, List.flatMap_cons, hjoined, List.append_assoc]

end SelfDescribing
