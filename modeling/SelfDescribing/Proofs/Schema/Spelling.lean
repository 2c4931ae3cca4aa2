import SelfDescribing.Entity.Basic
import SelfDescribing.Proofs.Envelope.Reading
import SelfDescribing.Proofs.Value.Parts

namespace SelfDescribing

open Steps

/-!
# Spellings of schemas

A structure may be tagged by its name or by its code, and a descriptor may leave its code out.
Reading takes both spellings, and it does not look at items after the types of a schema or after the
code of a descriptor.

* `Value.canonical` — a value with the structures in it spelled as they are written.
* `Value.Exact` — a value without items that reading does not look at.
* `Schema.ofValue_iff_canonical` — which values are read as a schema, and when nothing is dropped.

Reading a schema takes apart one structure inside another, and for each kind of them there is one
equivalence: reading succeeds with `x` exactly if the canonical form of the value is what `x` is
written as.  The equivalences are composed from the inside out, so that the one for schemas mentions
no details.
-/

variable {ω : Type}

/-! ### The written spelling -/

namespace WellKnown

/-- The structure that a tag names. -/
def ofTag? (tag : Value ω) : Option WellKnown := all.find? (·.descriptor.admits tag)

/-- The body of a structure as it is written: a descriptor has a null for a code that is left out.
With `trim`, items behind those that are read are left out. -/
def arrange (trim : Bool) : WellKnown → Value ω → Value ω
  | .schema, .list (types :: rest) => .list (types :: if trim then [] else rest)
  | .objectDescriptor, .list [name] => .list [name, .null]
  | .objectDescriptor, .list (name :: code :: rest) =>
      .list (name :: code :: if trim then [] else rest)
  | _, body => body

/-- All tags of the schema language are listed. -/
theorem mem_all (w : WellKnown) : w ∈ all := by cases w <;> decide

/-- Name and code are what a descriptor's list starts with; a code that is left out is null. -/
theorem arrange_descriptor_iff {body name code : Value ω} :
    objectDescriptor.arrange true body = .list [name, code] ↔
      (body = .list [name] ∧ code = .null) ∨ ∃ rest, body = .list (name :: code :: rest) := by
  cases body with
  | list items =>
    obtain _ | ⟨first, _ | ⟨second, rest⟩⟩ := items
    · simp [arrange]
    · simp [arrange, eq_comm]
    · simp [arrange]
  | _ => simp [arrange]

/-- The types of a schema are the first item of its list, whatever comes behind it. -/
theorem arrange_schema_iff {body types : Value ω} :
    schema.arrange true body = .list [types] ↔ ∃ rest, body = .list (types :: rest) := by
  cases body with
  | list items => cases items <;> simp [arrange]
  | _ => simp [arrange]

/-- Tags are told apart by their codes. -/
theorem code_injective {w w' : WellKnown} (h : w.code = w'.code) : w = w' := by
  revert h
  cases w <;> cases w' <;> decide

/-- Tags are told apart by their names. -/
theorem name_injective {w w' : WellKnown} (h : w.name = w'.name) : w = w' := by
  revert h
  cases w <;> cases w' <;> decide

/-- A tag names one structure. -/
theorem eq_of_admits {w w' : WellKnown} {tag : Value ω} (h : w.descriptor.admits tag = true)
    (h' : w'.descriptor.admits tag = true) : w = w' := by
  cases tag with
  | ulong code =>
    have hcode := of_decide_eq_true h
    have hcode' := of_decide_eq_true h'
    exact code_injective (Option.some.inj (hcode.trans hcode'.symm))
  | symbol name =>
    have hname := of_decide_eq_true h
    have hname' := of_decide_eq_true h'
    exact name_injective (hname.trans hname'.symm)
  | _ => cases h

/-- What is found for a tag is referred to by it. -/
theorem admits_of_ofTag? {w : WellKnown} {tag : Value ω} (h : ofTag? tag = some w) :
    w.descriptor.admits tag = true := by
  have hadmits := List.find?_some h
  exact hadmits

/-- A tag refers to at most one of the known descriptors, which is the one that is found. -/
theorem ofTag?_eq_some_iff {w : WellKnown} {tag : Value ω} :
    ofTag? tag = some w ↔ w.descriptor.admits tag = true := by
  refine ⟨admits_of_ofTag?, fun h => ?_⟩
  cases hfind : ofTag? tag with
  | none => exact absurd h (List.find?_eq_none.1 hfind w w.mem_all)
  | some w' => rw [eq_of_admits h (admits_of_ofTag? hfind)]

end WellKnown

mutual

/-- A value with the structures in it as they are written, tagged by their codes. -/
def Value.canonical (trim : Bool) : Value ω → Value ω
  | .list items => .list (canonicalItems trim items)
  | .described tag body =>
    match WellKnown.ofTag? tag with
    | some w => w.descriptor.describe (w.arrange trim (body.canonical trim))
    | none => .described tag body
  | v => v

/-- The items of a list with the structures in them as they are written. -/
def canonicalItems (trim : Bool) : List (Value ω) → List (Value ω)
  | [] => []
  | v :: rest => v.canonical trim :: canonicalItems trim rest

end

namespace Value

variable {trim : Bool} {v u : Value ω}

/-- Items are spelled out one by one. -/
theorem canonicalItems_eq_map (trim : Bool) (items : List (Value ω)) :
    canonicalItems trim items = items.map (canonical trim) := by
  induction items with
  | nil => rfl
  | cons v rest ih => rw [canonicalItems, ih, List.map_cons]

/-- A list is spelled out item by item. -/
theorem canonical_list (trim : Bool) (items : List (Value ω)) :
    (list items).canonical trim = list (items.map (canonical trim)) := by
  rw [canonical, canonicalItems_eq_map]

/-- A described value with a known tag is spelled out with its descriptor in full, and with its list
arranged. -/
theorem canonical_described {w : WellKnown} {tag : Value ω} (h : w.descriptor.admits tag = true)
    (trim : Bool) (body : Value ω) : (described tag body).canonical trim =
      w.descriptor.describe (w.arrange trim (body.canonical trim)) := by
  rw [canonical, WellKnown.ofTag?_eq_some_iff.2 h]

/-- Only values without parts are spelled as such. -/
theorem canonical_eq_atom (hlist : ∀ items, u ≠ list items)
    (hdescribed : ∀ tag body, u ≠ described tag body) : v.canonical trim = u ↔ v = u := by
  cases v with
  | list items =>
    rw [canonical_list]
    exact iff_of_false (fun h => hlist _ h.symm) (fun h => hlist _ h.symm)
  | described tag body =>
    refine iff_of_false (fun h => ?_) (fun h => hdescribed _ _ h.symm)
    rw [canonical] at h
    split at h <;> exact hdescribed _ _ h.symm
  | _ => rfl

/-- Only null is spelled as null. -/
theorem canonical_eq_null : v.canonical trim = null ↔ v = null :=
  canonical_eq_atom (fun _ => nofun) (fun _ _ => nofun)

theorem canonical_eq_bool {b : Bool} : v.canonical trim = bool b ↔ v = bool b :=
  canonical_eq_atom (fun _ => nofun) (fun _ _ => nofun)

/-- A text has one spelling. -/
theorem canonical_eq_string {s : String} : v.canonical trim = string s ↔ v = string s :=
  canonical_eq_atom (fun _ => nofun) (fun _ _ => nofun)

/-- A symbol has one spelling. -/
theorem canonical_eq_symbol {s : String} : v.canonical trim = symbol s ↔ v = symbol s :=
  canonical_eq_atom (fun _ => nofun) (fun _ _ => nofun)

/-- A number has one spelling. -/
theorem canonical_eq_ulong {n : UInt64} : v.canonical trim = ulong n ↔ v = ulong n :=
  canonical_eq_atom (fun _ => nofun) (fun _ _ => nofun)

/-- Only lists are spelled as lists. -/
theorem canonical_eq_list_iff {us : List (Value ω)} :
    v.canonical trim = list us ↔ ∃ items, v = list items ∧ items.map (canonical trim) = us := by
  cases v with
  | list items =>
    rw [canonical_list]
    simp only [list.injEq, exists_eq_left']
  | described tag body =>
    refine iff_of_false (fun h => ?_) (fun ⟨_, h, _⟩ => nomatch h)
    rw [canonical] at h
    split at h <;> cases h
  | _ => exact iff_of_false (fun h => nomatch h) (fun ⟨_, h, _⟩ => nomatch h)

/-- A text or null has one spelling. -/
theorem canonical_eq_optionalText {text : Option String} :
    v.canonical trim = optionalText text ↔ v = optionalText text := by
  cases text with
  | none => exact canonical_eq_null
  | some text => exact canonical_eq_string

/-- A list of texts has one spelling. -/
theorem canonical_eq_textList {texts : List String} :
    v.canonical trim = textList texts ↔ v = textList texts := by
  have hitems : ∀ items : List (Value ω),
      items.map (canonical trim) = texts.map string ↔ items = texts.map string := by
    intro items
    rw [← List.forall₂_eq_eq_eq, List.forall₂_map_left_iff, List.forall₂_map_right_iff,
      List.forall₂_map_right_iff]
    simp only [canonical_eq_string]
  simp only [textList, canonical_eq_list_iff, hitems, exists_eq_right]

/-- What is spelled as a list under a known descriptor is tagged with it and has this list once it
is arranged. -/
theorem canonical_eq_describe_iff {w : WellKnown} {items : List (Value ω)} :
    v.canonical trim = w.describe items ↔ ∃ tag body, v = described tag body ∧
      w.descriptor.admits tag = true ∧ w.arrange trim (body.canonical trim) = list items := by
  constructor
  · intro h
    cases v with
    | described tag body =>
      rw [canonical] at h
      split at h
      -- A tag that is well known is replaced by the descriptor's own, which determines the kind.
      · rename_i w' hw'
        obtain ⟨htag, hbody⟩ := described.inj h
        have hadmits := Descriptor.admits_toValue (ω := ω) w'.descriptor
        rw [htag] at hadmits
        cases WellKnown.eq_of_admits hadmits (Descriptor.admits_toValue w.descriptor)
        exact ⟨tag, body, rfl, WellKnown.ofTag?_eq_some_iff.1 hw', hbody⟩
      -- Any other tag stays, and would have to be well known.
      · rename_i hnone
        obtain ⟨rfl, -⟩ := described.inj h
        cases hnone.symm.trans (WellKnown.ofTag?_eq_some_iff.2 (Descriptor.admits_toValue _))
    | _ => cases h
  · rintro ⟨tag, body, rfl, htag, hbody⟩
    rw [canonical_described htag, hbody]
    rfl

end Value

/-! ### Nothing behind what is read -/

/-- No list of a schema in a value has items behind the types, and no list of a descriptor has items
behind the code. -/
def Value.Exact (v : Value ω) : Prop :=
  v.EachDescribed fun tag body => ∀ items, body = list items →
    (WellKnown.schema.descriptor.admits tag = true → items.length ≤ 1) ∧
    (WellKnown.objectDescriptor.descriptor.admits tag = true → items.length ≤ 2)

namespace WellKnown

/-- Where no items are to be left out, leaving them out changes nothing. -/
theorem arrange_of_exact {w : WellKnown} {body : Value ω}
    (h : ∀ items, body = .list items →
      (w = schema → items.length ≤ 1) ∧ (w = objectDescriptor → items.length ≤ 2)) :
    w.arrange true body = w.arrange false body := by
  unfold arrange
  split
  · rename_i types rest
    have hlength := (h _ rfl).1 rfl
    cases rest with
    | nil => rfl
    | cons => simp at hlength
  · rfl
  · rename_i name code rest
    have hlength := (h _ rfl).2 rfl
    cases rest with
    | nil => rfl
    | cons => simp at hlength
  · rfl

/-- With the items behind left in, nothing is changed but a code that is left out. -/
theorem arrange_false_cases (w : WellKnown) (body : Value ω) : w.arrange false body = body ∨
    ∃ name, body = .list [name] ∧ w.arrange false body = .list [name, .null] := by
  unfold arrange
  split
  · exact .inl rfl
  · exact .inr ⟨_, rfl, rfl⟩
  · exact .inl rfl
  · exact .inl rfl

/-- Arranging a list does not make up for items that do not belong there. -/
theorem exact_of_arrange {w : WellKnown} {body : Value ω} (h : (w.arrange false body).Exact) :
    body.Exact := by
  obtain he | ⟨name, rfl, he⟩ := w.arrange_false_cases body <;> rw [he] at h
  · exact h
  · have hname := Value.eachDescribed_list.1 h name List.mem_cons_self
    exact Value.eachDescribed_list.2 (List.forall_mem_singleton.2 hname)

/-- Arranging a list without leaving items out does not make it shorter. -/
theorem length_le_arrange (w : WellKnown) (items : List (Value ω)) :
    ∃ items', w.arrange false (.list items) = .list items' ∧ items.length ≤ items'.length := by
  obtain he | ⟨name, hname, he⟩ := w.arrange_false_cases (.list items)
  · exact ⟨items, he, Nat.le_refl _⟩
  · cases hname
    exact ⟨_, he, Nat.le_succ 1⟩

/-- A list under a known descriptor has no further items if it is as long as this descriptor allows
and its items have none. -/
theorem exact_describe {w : WellKnown} {items : List (Value ω)}
    (hlength : (w = schema → items.length ≤ 1) ∧ (w = objectDescriptor → items.length ≤ 2))
    (h : ∀ v ∈ items, v.Exact) : (w.describe items).Exact := by
  refine Value.eachDescribed_described.2 ⟨?_, Value.eachDescribed_list.2 h⟩
  rintro _ ⟨⟩
  have hadmits := Descriptor.admits_toValue (ω := ω) w.descriptor
  exact ⟨fun htag => hlength.1 (eq_of_admits hadmits htag),
    fun htag => hlength.2 (eq_of_admits hadmits htag)⟩

end WellKnown

mutual

/-- A value without further items has one canonical spelling, whether or not they are left out. -/
theorem Value.canonical_of_exact : ∀ (v : Value ω), v.Exact → v.canonical true = v.canonical false
  | .list items, h => by
    rw [Value.canonical, Value.canonical,
      canonicalItems_of_exact items (Value.eachDescribed_list.1 h)]
  | .described tag body, h => by
    obtain ⟨hlength, hbody⟩ := Value.eachDescribed_described.1 h
    rw [Value.canonical, Value.canonical, Value.canonical_of_exact body hbody]
    split
    · rename_i w hw
      have htag := WellKnown.ofTag?_eq_some_iff.1 hw
      rw [WellKnown.arrange_of_exact]
      intro items' hitems'
      obtain ⟨items, rfl, rfl⟩ := Value.canonical_eq_list_iff.1 hitems'
      rw [List.length_map]
      obtain ⟨hschema, hdescriptor⟩ := hlength items rfl
      exact ⟨fun he => hschema (he ▸ htag), fun he => hdescriptor (he ▸ htag)⟩
    · rfl
  | .map _, _ | .null, _ | .bool _, _ | .ubyte _, _ | .ushort _, _ | .uint _, _ | .ulong _, _
  | .byte _, _ | .short _, _ | .int _, _ | .long _, _ | .float _, _ | .double _, _ | .char _, _
  | .timestamp _, _ | .binary _, _ | .string _, _ | .symbol _, _ | .live _, _ => rfl

theorem canonicalItems_of_exact : ∀ (items : List (Value ω)), (∀ v ∈ items, v.Exact) →
    canonicalItems true items = canonicalItems false items
  | [], _ => rfl
  | v :: rest, h => by
    rw [List.forall_mem_cons] at h
    rw [canonicalItems, canonicalItems, Value.canonical_of_exact v h.1,
      canonicalItems_of_exact rest h.2]

end

mutual

/-- A value has further items only if its spelling with all of them has. -/
theorem Value.exact_of_canonical : ∀ (v : Value ω), (v.canonical false).Exact → v.Exact
  | .list items, h => by
    rw [Value.canonical] at h
    exact Value.eachDescribed_list.2 (exact_of_canonicalItems items (Value.eachDescribed_list.1 h))
  | .described tag body, h => by
    cases hw : WellKnown.ofTag? tag with
    | none =>
      rw [Value.canonical, hw] at h
      exact h
    | some w =>
      have htag := WellKnown.ofTag?_eq_some_iff.1 hw
      rw [Value.canonical_described htag] at h
      obtain ⟨hlength, hbody⟩ := Value.eachDescribed_described.1 h
      refine Value.eachDescribed_described.2 ⟨?_, Value.exact_of_canonical body
        (WellKnown.exact_of_arrange hbody)⟩
      -- Arranging the items may fill up the end and never drops any, as it does not trim here.
      rintro items rfl
      rw [Value.canonical_list] at hlength
      obtain ⟨items', he, hle⟩ := w.length_le_arrange (items.map (Value.canonical false))
      rw [List.length_map] at hle
      obtain ⟨hschema, hdescriptor⟩ := hlength items' he
      have hadmits := Descriptor.admits_toValue (ω := ω) w.descriptor
      constructor
      · intro hother
        exact hle.trans (hschema (WellKnown.eq_of_admits hother htag ▸ hadmits))
      · intro hother
        exact hle.trans (hdescriptor (WellKnown.eq_of_admits hother htag ▸ hadmits))
  | .map _, h => h
  | .null, h | .bool _, h | .ubyte _, h | .ushort _, h | .uint _, h | .ulong _, h
  | .byte _, h | .short _, h | .int _, h | .long _, h | .float _, h | .double _, h | .char _, h
  | .timestamp _, h | .binary _, h | .string _, h | .symbol _, h | .live _, h => h

theorem exact_of_canonicalItems : ∀ (items : List (Value ω)),
    (∀ v ∈ canonicalItems false items, v.Exact) → ∀ v ∈ items, v.Exact
  | [], _ => nofun
  | v :: rest, h => by
    rw [canonicalItems, List.forall_mem_cons] at h
    exact List.forall_mem_cons.2
      ⟨Value.exact_of_canonical v h.1, exact_of_canonicalItems rest h.2⟩

end

/-! ### Written schemas -/

/-- There are no lists in a text or null. -/
theorem exact_optionalText (text : Option String) : (optionalText text : Value ω).Exact := by
  cases text <;> nofun

/-- There are no lists in a list of texts. -/
theorem exact_textList (texts : List String) : (textList texts : Value ω).Exact := by
  refine Value.eachDescribed_list.2 fun v hv => ?_
  obtain ⟨text, -, rfl⟩ := List.mem_map.1 hv
  nofun

/-- A descriptor is written with its name and code and nothing else. -/
theorem Descriptor.exact_toEntry (d : Descriptor) : (d.toEntry : Value ω).Exact := by
  refine WellKnown.exact_describe ⟨nofun, fun _ => Nat.le_refl 2⟩ ?_
  rw [List.forall_mem_cons, List.forall_mem_singleton]
  exact ⟨nofun, by cases d.code <;> nofun⟩

theorem Field.exact_toValue (f : Field) : (f.toValue : Value ω).Exact := by
  refine WellKnown.exact_describe ⟨nofun, nofun⟩ ?_
  rw [List.forall_mem_cons, List.forall_mem_cons, List.forall_mem_singleton]
  exact ⟨nofun, nofun, nofun⟩

/-- A notation is written without further items, its fields and descriptor included. -/
theorem TypeNotation.exact_toValue (type : TypeNotation) : (type.toValue : Value ω).Exact := by
  cases type with
  | composite c =>
    refine WellKnown.exact_describe ⟨nofun, nofun⟩ ?_
    have hfields : (Value.list (c.fields.map Field.toValue) : Value ω).Exact := by
      refine Value.eachDescribed_list.2 fun v hv => ?_
      obtain ⟨f, -, rfl⟩ := List.mem_map.1 hv
      exact f.exact_toValue
    simp only [List.forall_mem_cons]
    exact ⟨nofun, exact_optionalText _, exact_textList _, c.descriptor.exact_toEntry, hfields,
      nofun⟩
  | restricted r =>
    refine WellKnown.exact_describe ⟨nofun, nofun⟩ ?_
    simp only [List.forall_mem_cons]
    exact ⟨nofun, exact_optionalText _, exact_textList _, nofun, r.descriptor.exact_toEntry, nofun⟩

/-- A schema is written with its types and nothing else. -/
theorem Schema.exact_toValue (s : Schema) : (s.toValue : Value ω).Exact := by
  refine WellKnown.exact_describe ⟨fun _ => Nat.le_refl 1, nofun⟩ ?_
  refine List.forall_mem_singleton.2 (Value.eachDescribed_list.2 fun v hv => ?_)
  obtain ⟨type, -, rfl⟩ := List.mem_map.1 hv
  exact type.exact_toValue

/-! ### Reading parts of schemas -/

/-- A text is read of a text alone. -/
theorem Value.toText_eq_ok_iff {v : Value ω} {s : String} :
    v.toText = .ok s ↔ v = .string s := by
  cases v <;> simp [toText]

/-- A text or null is read of its one spelling. -/
theorem Value.toOptionalText_eq_ok_iff {v : Value ω} {s : Option String} :
    v.toOptionalText = .ok s ↔ v = optionalText s := by
  cases v <;> cases s <;> simp [toOptionalText, optionalText]

/-- Items are read of a list alone. -/
theorem Value.toItems_eq_ok_iff {what : String} {v : Value ω} {items : List (Value ω)} :
    v.toItems what = .ok items ↔ v = .list items := by
  cases v <;> simp [toItems]

/-- Tag and body are read of a described value alone. -/
theorem Value.toDescribed_eq_ok_iff {what : String} {v tag body : Value ω} :
    v.toDescribed what = .ok (tag, body) ↔ v = .described tag body := by
  cases v <;> simp [toDescribed]

/-- The next item is there exactly if the list has not ended. -/
theorem nextItem_eq_ok_iff {items rest : List (Value ω)} {v : Value ω} :
    nextItem items = .ok (v, rest) ↔ items = v :: rest := by
  cases items <;> simp [nextItem]

/-- Texts are read of a list of them alone. -/
theorem Value.toTexts_eq_ok_iff {v : Value ω} {texts : List String} :
    v.toTexts = .ok texts ↔ v = textList texts := by
  rw [toTexts, except_bind_eq_ok]
  simp only [toItems_eq_ok_iff, except_mapM_eq_ok_iff, toText_eq_ok_iff]
  have hsame : ∀ items : List (Value ω),
      List.Forall₂ (fun v s => v = string s) items texts ↔ items = texts.map string := by
    intro items
    rw [← List.forall₂_eq_eq_eq, List.forall₂_map_right_iff]
  simp only [hsame, textList, exists_eq_right]

variable [LiveObject ω]

/-- The items of a known kind are read under any tag that refers to it. -/
theorem WellKnown.undescribe_eq_ok_iff {w : WellKnown} {v : Value ω} {items : List (Value ω)} :
    w.undescribe v = .ok items ↔
      ∃ tag, v = .described tag (.list items) ∧ w.descriptor.admits tag = true := by
  constructor
  · intro h
    obtain ⟨⟨tag, body⟩, hdescribed, hbody⟩ := except_bind_eq_ok.1 h
    obtain rfl := Value.toDescribed_eq_ok_iff.1 hdescribed
    dsimp only at hbody
    split at hbody
    · cases hbody
    · rename_i hadmits
      obtain rfl := Value.toItems_eq_ok_iff.1 hbody
      exact ⟨tag, rfl, by simpa using hadmits⟩
  · rintro ⟨tag, rfl, hadmits⟩
    simp only [undescribe, Value.toDescribed, bind, Except.bind, hadmits]
    rfl

/-! ### Descriptors and fields -/

/-- A descriptor is read of a value exactly if the value is spelled as the descriptor is, apart from
what is left out. -/
theorem Descriptor.ofEntry_eq_ok_iff {v : Value ω} {d : Descriptor} :
    Descriptor.ofEntry v = .ok d ↔ v.canonical true = d.toEntry := by
  rw [toEntry, Value.canonical_eq_describe_iff]
  constructor
  · intro h
    obtain ⟨items, hitems, hnext⟩ := except_bind_eq_ok.1 h
    obtain ⟨⟨head, rest⟩, hitem, hparts⟩ := except_bind_eq_ok.1 hnext
    obtain ⟨tag, rfl, htag⟩ := WellKnown.undescribe_eq_ok_iff.1 hitems
    obtain rfl := nextItem_eq_ok_iff.1 hitem
    refine ⟨tag, _, rfl, htag, ?_⟩
    rw [Value.canonical_list]
    -- The name is a symbol, and the code is missing, null or a number.
    dsimp only at hparts
    split at hparts
    · obtain ⟨name, ⟨⟩, hcode⟩ := except_bind_eq_ok.1 hparts
      split at hcode <;> cases hcode <;> rfl
    · cases hparts
  · rintro ⟨tag, body, rfl, htag, hbody⟩
    obtain ⟨name, code⟩ := d
    have hread : ∀ rest, WellKnown.objectDescriptor.undescribe
        (.described tag (.list (.symbol name :: rest)) : Value ω) =
          .ok (.symbol name :: rest) :=
      fun rest => WellKnown.undescribe_eq_ok_iff.2 ⟨tag, rfl, htag⟩
    obtain ⟨hshort, hcode⟩ | ⟨rest, hlong⟩ := WellKnown.arrange_descriptor_iff.1 hbody
    · obtain ⟨items, rfl, hitems⟩ := Value.canonical_eq_list_iff.1 hshort
      obtain ⟨head, _, rfl, hhead, hnil⟩ := List.map_eq_cons_iff.1 hitems
      obtain rfl := List.map_eq_nil_iff.1 hnil
      obtain rfl := Value.canonical_eq_symbol.1 hhead
      cases code with
      | none =>
        rw [ofEntry, hread]
        rfl
      | some code => cases hcode
    · obtain ⟨items, rfl, hitems⟩ := Value.canonical_eq_list_iff.1 hlong
      obtain ⟨head, _, rfl, hhead, hrest⟩ := List.map_eq_cons_iff.1 hitems
      obtain ⟨next, _, rfl, hnext, -⟩ := List.map_eq_cons_iff.1 hrest
      obtain rfl := Value.canonical_eq_symbol.1 hhead
      cases code with
      | none =>
        obtain rfl := Value.canonical_eq_null.1 hnext
        rw [ofEntry, hread]
        rfl
      | some code =>
        obtain rfl := Value.canonical_eq_ulong.1 hnext
        rw [ofEntry, hread]
        rfl

/-- A field is read from the values that have the canonical form of the field, and from no other. -/
theorem Field.ofValue_eq_ok_iff {v : Value ω} {f : Field} :
    Field.ofValue v = .ok f ↔ v.canonical true = f.toValue := by
  rw [toValue, Value.canonical_eq_describe_iff]
  constructor
  · intro h
    obtain ⟨items, hitems, hparts⟩ := except_bind_eq_ok.1 h
    obtain ⟨tag, rfl, htag⟩ := WellKnown.undescribe_eq_ok_iff.1 hitems
    refine ⟨tag, _, rfl, htag, ?_⟩
    -- A field has exactly three entries.
    split at hparts
    · obtain ⟨name, hname, htype⟩ := except_bind_eq_ok.1 hparts
      obtain ⟨type, htype, hflag⟩ := except_bind_eq_ok.1 htype
      obtain rfl := Value.toText_eq_ok_iff.1 hname
      obtain rfl := Value.toText_eq_ok_iff.1 htype
      split at hflag <;> cases hflag
      rw [Value.canonical_list]
      rfl
    · cases hparts
  · rintro ⟨tag, body, rfl, htag, hbody⟩
    obtain ⟨items, rfl, hitems⟩ := Value.canonical_eq_list_iff.1 hbody
    simp only [List.map_eq_cons_iff, List.map_eq_nil_iff, Value.canonical_eq_string,
      Value.canonical_eq_bool] at hitems
    obtain ⟨_, _, rfl, rfl, _, _, rfl, rfl, _, _, rfl, rfl, rfl⟩ := hitems
    rw [ofValue, WellKnown.undescribe_eq_ok_iff.2 ⟨tag, rfl, htag⟩]
    rfl

/-- The fields of a type are read from values with the canonical forms of the fields, in order. -/
theorem Field.mapM_eq_ok_iff {items : List (Value ω)} {fields : List Field} :
    items.mapM Field.ofValue = .ok fields ↔
      items.map (Value.canonical true) = fields.map Field.toValue := by
  rw [except_mapM_eq_ok_iff, ← List.forall₂_eq_eq_eq, List.forall₂_map_left_iff,
    List.forall₂_map_right_iff]
  simp only [Field.ofValue_eq_ok_iff]

/-! ### Types and schemas -/

/-- A composite is read of a body exactly if its fields have distinct names and the body is spelled
as that of the composite is. -/
theorem CompositeType.ofBody_eq_ok_iff {body : Value ω} {c : CompositeType} :
    CompositeType.ofBody body = .ok c ↔ c.fieldNames.Nodup ∧
      body.canonical true = .list [.string c.name, optionalText c.label, textList c.provides,
        c.descriptor.toEntry, .list (c.fields.map Field.toValue)] := by
  constructor
  · intro h
    refine ⟨nodup_of_ofBody h, ?_⟩
    obtain ⟨items, hitems, hparts⟩ := except_bind_eq_ok.1 h
    obtain rfl := Value.toItems_eq_ok_iff.1 hitems
    -- The notation has six entries; a body of another length is refused.
    split at hparts
    · obtain ⟨name, hname, hparts⟩ := except_bind_eq_ok.1 hparts
      obtain ⟨label, hlabel, hparts⟩ := except_bind_eq_ok.1 hparts
      obtain ⟨provides, hprovides, hparts⟩ := except_bind_eq_ok.1 hparts
      obtain ⟨descriptor, hdescriptor, hparts⟩ := except_bind_eq_ok.1 hparts
      obtain ⟨list, hlist, hparts⟩ := except_bind_eq_ok.1 hparts
      obtain ⟨fields, hfields, hparts⟩ := except_bind_eq_ok.1 hparts
      split at hparts <;> cases hparts
      obtain rfl := Value.toItems_eq_ok_iff.1 hlist
      rw [Value.canonical_list]
      simp only [List.map_cons, List.map_nil, Value.canonical_eq_string.2
        (Value.toText_eq_ok_iff.1 hname), Value.canonical_eq_optionalText.2
        (Value.toOptionalText_eq_ok_iff.1 hlabel), Value.canonical_eq_textList.2
        (Value.toTexts_eq_ok_iff.1 hprovides), Descriptor.ofEntry_eq_ok_iff.1 hdescriptor,
        Value.canonical_list, Field.mapM_eq_ok_iff.1 hfields]
    · cases hparts
  · rintro ⟨hnodup, hbody⟩
    -- Conversely the canonical form determines each entry up to its own spelling.
    obtain ⟨items, rfl, hitems⟩ := Value.canonical_eq_list_iff.1 hbody
    simp only [List.map_eq_cons_iff, List.map_eq_nil_iff, Value.canonical_eq_string,
      Value.canonical_eq_optionalText, Value.canonical_eq_textList,
      ← Descriptor.ofEntry_eq_ok_iff, Value.canonical_eq_list_iff] at hitems
    obtain ⟨_, _, rfl, rfl, _, _, rfl, rfl, _, _, rfl, rfl, entry, _, rfl, hentry, _, _, rfl,
      ⟨fields, rfl, hfields⟩, rfl⟩ := hitems
    have hrepeat : firstRepeat? (c.fields.map (·.name)) = none := firstRepeat?_eq_none_iff.2 hnodup
    simp only [CompositeType.ofBody, Value.toItems, Value.toText, bind, Except.bind,
      Value.toOptionalText_optionalText, Value.toTexts_textList, hentry,
      Field.mapM_eq_ok_iff.2 hfields, hrepeat]
    rfl

/-- A restricted type is read of a body exactly if the body is spelled as its own is. -/
theorem RestrictedType.ofBody_eq_ok_iff {body : Value ω} {r : RestrictedType} :
    RestrictedType.ofBody body = .ok r ↔
      body.canonical true = .list [.string r.name, optionalText r.label, textList r.provides,
        .string r.source, r.descriptor.toEntry] := by
  constructor
  · intro h
    obtain ⟨items, hitems, hparts⟩ := except_bind_eq_ok.1 h
    obtain rfl := Value.toItems_eq_ok_iff.1 hitems
    -- The notation has five entries; a body of another length is refused.
    split at hparts
    · obtain ⟨name, hname, hparts⟩ := except_bind_eq_ok.1 hparts
      obtain ⟨label, hlabel, hparts⟩ := except_bind_eq_ok.1 hparts
      obtain ⟨provides, hprovides, hparts⟩ := except_bind_eq_ok.1 hparts
      obtain ⟨source, hsource, hparts⟩ := except_bind_eq_ok.1 hparts
      obtain ⟨descriptor, hdescriptor, hparts⟩ := except_bind_eq_ok.1 hparts
      cases hparts
      rw [Value.canonical_list]
      simp only [List.map_cons, List.map_nil, Value.canonical_eq_string.2
        (Value.toText_eq_ok_iff.1 hname), Value.canonical_eq_optionalText.2
        (Value.toOptionalText_eq_ok_iff.1 hlabel), Value.canonical_eq_textList.2
        (Value.toTexts_eq_ok_iff.1 hprovides), Value.canonical_eq_string.2
        (Value.toText_eq_ok_iff.1 hsource), Descriptor.ofEntry_eq_ok_iff.1 hdescriptor]
    · cases hparts
  · intro hbody
    -- Conversely the canonical form determines each entry up to its own spelling.
    obtain ⟨items, rfl, hitems⟩ := Value.canonical_eq_list_iff.1 hbody
    simp only [List.map_eq_cons_iff, List.map_eq_nil_iff, Value.canonical_eq_string,
      Value.canonical_eq_optionalText, Value.canonical_eq_textList,
      ← Descriptor.ofEntry_eq_ok_iff] at hitems
    obtain ⟨_, _, rfl, rfl, _, _, rfl, rfl, _, _, rfl, rfl, _, _, rfl, rfl, entry, _, rfl,
      hentry, rfl⟩ := hitems
    simp only [RestrictedType.ofBody, Value.toItems, Value.toText, bind, Except.bind,
      Value.toOptionalText_optionalText, Value.toTexts_textList, hentry]
    rfl

/-- A notation is read of a value exactly if it is one that can be and the value is spelled as it
is. -/
theorem TypeNotation.ofValue_eq_ok_iff {v : Value ω} {type : TypeNotation} :
    TypeNotation.ofValue v = .ok type ↔
      type.Distinct ∧ v.canonical true = type.toValue := by
  constructor
  · intro h
    refine ⟨distinct_of_ofValue h, ?_⟩
    obtain ⟨⟨tag, body⟩, hdescribed, hkind⟩ := except_bind_eq_ok.1 h
    obtain rfl := Value.toDescribed_eq_ok_iff.1 hdescribed
    dsimp only at hkind
    -- The tag decides between the two kinds of notation.
    split at hkind
    · rename_i htag
      obtain ⟨c, hc, ⟨⟩⟩ := except_bind_eq_ok.1 hkind
      exact Value.canonical_eq_describe_iff.2
        ⟨tag, body, rfl, htag, (CompositeType.ofBody_eq_ok_iff.1 hc).2⟩
    · split at hkind
      · rename_i htag
        obtain ⟨r, hr, ⟨⟩⟩ := except_bind_eq_ok.1 hkind
        exact Value.canonical_eq_describe_iff.2
          ⟨tag, body, rfl, htag, RestrictedType.ofBody_eq_ok_iff.1 hr⟩
      · cases hkind
  · rintro ⟨hdistinct, hv⟩
    cases type with
    | composite c =>
      obtain ⟨tag, body, rfl, htag, hbody⟩ := Value.canonical_eq_describe_iff.1 hv
      have hc := CompositeType.ofBody_eq_ok_iff.2 ⟨hdistinct, hbody⟩
      simp only [ofValue, Value.toDescribed, bind, Except.bind, if_pos htag, hc]
      rfl
    | restricted r =>
      obtain ⟨tag, body, rfl, htag, hbody⟩ := Value.canonical_eq_describe_iff.1 hv
      have hr := RestrictedType.ofBody_eq_ok_iff.2 hbody
      -- No tag stands for both kinds, so that the first test fails for a restricted type.
      have hother : ¬ WellKnown.compositeType.descriptor.admits tag = true := by
        intro h
        cases WellKnown.eq_of_admits h htag
      simp only [ofValue, Value.toDescribed, bind, Except.bind, if_neg hother, if_pos htag, hr]
      rfl

/-- The notations of a schema are read from values with their canonical forms, in order, and are
well-formed. -/
theorem TypeNotation.mapM_eq_ok_iff {items : List (Value ω)} {types : List TypeNotation} :
    items.mapM TypeNotation.ofValue = .ok types ↔ (∀ type ∈ types, type.Distinct) ∧
      items.map (Value.canonical true) = types.map TypeNotation.toValue := by
  rw [except_mapM_eq_ok_iff, ← List.forall₂_eq_eq_eq, List.forall₂_map_left_iff,
    List.forall₂_map_right_iff]
  simp only [TypeNotation.ofValue_eq_ok_iff]
  constructor
  · intro h
    refine ⟨fun type htype => ?_, h.imp fun _ _ => And.right⟩
    obtain ⟨v, -, hv⟩ := exists_of_forall₂ h.flip htype
    exact hv.1
  · rintro ⟨hdistinct, h⟩
    exact ((List.forall₂_and_left _ _).2 ⟨hdistinct, h.flip⟩).flip

/-- A value is read as a schema exactly if it is this schema when it is spelled as it is written and
the items that are not looked at are left out. -/
theorem Schema.ofValue_eq_ok_iff_trimmed {v : Value ω} {s : Schema} :
    Schema.ofValue v = .ok s ↔ s.Distinct ∧ v.canonical true = s.toValue := by
  constructor
  · intro h
    refine ⟨distinct_of_ofValue h, ?_⟩
    obtain ⟨items, hitems, hparts⟩ := except_bind_eq_ok.1 h
    obtain ⟨⟨list, rest⟩, hnext, hparts⟩ := except_bind_eq_ok.1 hparts
    obtain ⟨values, hvalues, hparts⟩ := except_bind_eq_ok.1 hparts
    obtain ⟨types, htypes, hparts⟩ := except_bind_eq_ok.1 hparts
    cases hparts
    -- Behind the list of notations `rest` is read by nobody.
    obtain ⟨tag, rfl, htag⟩ := WellKnown.undescribe_eq_ok_iff.1 hitems
    obtain rfl := nextItem_eq_ok_iff.1 hnext
    obtain rfl := Value.toItems_eq_ok_iff.1 hvalues
    refine Value.canonical_eq_describe_iff.2 ⟨tag, _, rfl, htag, ?_⟩
    rw [Value.canonical_list, WellKnown.arrange_schema_iff]
    refine ⟨rest.map (Value.canonical true), ?_⟩
    rw [List.map_cons, Value.canonical_list, (TypeNotation.mapM_eq_ok_iff.1 htypes).2]
  · rintro ⟨hdistinct, hv⟩
    obtain ⟨tag, body, rfl, htag, hbody⟩ := Value.canonical_eq_describe_iff.1 hv
    -- Trimming drops the rest, so that the value may have had any.
    obtain ⟨rest, hbody⟩ := WellKnown.arrange_schema_iff.1 hbody
    obtain ⟨items, rfl, hitems⟩ := Value.canonical_eq_list_iff.1 hbody
    obtain ⟨list, rest, rfl, hlist, -⟩ := List.map_eq_cons_iff.1 hitems
    obtain ⟨values, rfl, hvalues⟩ := Value.canonical_eq_list_iff.1 hlist
    have htypes := TypeNotation.mapM_eq_ok_iff.2 ⟨hdistinct, hvalues⟩
    rw [ofValue, WellKnown.undescribe_eq_ok_iff.2 ⟨tag, rfl, htag⟩]
    simp only [nextItem, Value.toItems, bind, Except.bind, htypes]
    rfl

/-! ### Schemas -/

/-- A value is read as a schema exactly if the schema is written as this value, up to tags that are
told by name and codes that are left out, and up to items behind the types of the schema and the
codes of descriptors, which are not looked at.  Nothing is dropped exactly where there are none. -/
theorem Schema.ofValue_iff_canonical {v : Value ω} {s : Schema} :
    (Schema.ofValue v = .ok s ↔ s.Distinct ∧ s.toValue = v.canonical true) ∧
    (Schema.ofValue v = .ok s → (s.toValue = v.canonical false ↔ v.Exact)) := by
  have hread : Schema.ofValue v = .ok s ↔ s.Distinct ∧ s.toValue = v.canonical true := by
    rw [ofValue_eq_ok_iff_trimmed, eq_comm]
  refine ⟨hread, fun h => ⟨fun hsame => ?_, fun hexact => ?_⟩⟩
  · exact v.exact_of_canonical (hsame ▸ s.exact_toValue)
  · rw [(hread.1 h).2, v.canonical_of_exact hexact]

/-- A schema of one restricted type. -/
def Schema.ofRecords : Schema := ⟨[.restricted ⟨"Record", none, [], "list", ⟨"record", none⟩⟩]⟩

/-- The schema with a tag that is told by name and a code that is left out. -/
def Schema.spelled (more : List (Value Entity)) : Value Entity :=
  .described (.symbol "evo:schema") (.list (.list [WellKnown.restrictedType.describe
    [.string "Record", .null, .list [], .string "list",
      WellKnown.objectDescriptor.describe [.symbol "record"]]] :: more))

/-- Another spelling is read as the schema, and so is one with another item behind the types,
which is dropped. -/
theorem Schema.ofValue_spelled :
    Schema.ofValue (Schema.spelled []) = .ok Schema.ofRecords ∧ (Schema.spelled []).Exact ∧
    Schema.ofValue (Schema.spelled [.string "more"]) = .ok Schema.ofRecords ∧
    Schema.ofRecords.toValue ≠ (Schema.spelled [.string "more"]).canonical false := by
  have hdistinct : Schema.ofRecords.Distinct := List.forall_mem_singleton.2 trivial
  have hshort : Schema.ofValue (Schema.spelled []) = .ok Schema.ofRecords :=
    ofValue_iff_canonical.1.2 ⟨hdistinct, rfl⟩
  have hlong : Schema.ofValue (Schema.spelled [.string "more"]) = .ok Schema.ofRecords :=
    ofValue_iff_canonical.1.2 ⟨hdistinct, rfl⟩
  refine ⟨hshort, (ofValue_iff_canonical.2 hshort).1 rfl, hlong, ?_⟩
  intro h
  cases h

end SelfDescribing
