import SelfDescribing.Proofs.Factory.Differing
import SelfDescribing.Proofs.Factory.FieldOrder
import SelfDescribing.Proofs.Factory.RootCodec
import SelfDescribing.Proofs.Factory.RoundTrip

namespace SelfDescribing

open Steps Exchange

/-!
# What schemas document

Labels, supertypes and the sources of restricted types are there for readers of a schema, and so
are notations that no tag refers to, and the order of all notations.  None of them has a part in
decoding.

* `Schema.Redocuments` — a schema that differs from another one in these respects alone.
* `Schema.TellsSame` — schemas that tell the same of each tag in a value.
* `Caches.ReadAlike` — caches whose codecs read alike; two readings that start from such caches go
  on together.
* `Factory.decode_redocumented` — payloads with such schemas are decoded alike.

The two readings are compared by `Together`: they start from related caches, take the same turns,
and end alike with related caches.  The caches need not be equal, because the codecs kept in them
remember the notation that they were made from; they read alike, and this is all that can be
observed.
-/

variable {ω : Type}

/-! ### Notations -/

namespace TypeNotation

variable {t t' t'' : TypeNotation}

/-- Notations agree either way round. -/
theorem Agrees.symm (h : Agrees t t') : Agrees t' t := by
  cases h with
  | composite hname hfields => exact .composite hname.symm hfields.symm
  | restricted hname => exact .restricted hname.symm

/-- Agreement goes on from one notation to the next. -/
theorem Agrees.trans (h : Agrees t t') (h' : Agrees t' t'') : Agrees t t'' := by
  cases h with
  | composite hname hfields =>
    cases h' with
    | composite hname' hfields' => exact .composite (hname'.trans hname) (hfields'.trans hfields)
  | restricted hname =>
    cases h' with
    | restricted hname' => exact .restricted (hname'.trans hname)

/-- The same notation, or none on both sides. -/
theorem Agrees.rel_refl (found : Option TypeNotation) : Option.Rel Agrees found found := by
  cases found with
  | some t => exact .some (.refl t)
  | none => exact .none

/-- What is found agrees either way round. -/
theorem Agrees.rel_symm {found found' : Option TypeNotation} (h : Option.Rel Agrees found found') :
    Option.Rel Agrees found' found := by
  cases h with
  | some hagrees => exact .some hagrees.symm
  | none => exact .none

/-- Agreement goes on for what is found. -/
theorem Agrees.rel_trans {found found' found'' : Option TypeNotation}
    (h : Option.Rel Agrees found found') (h' : Option.Rel Agrees found' found'') :
    Option.Rel Agrees found found'' := by
  cases h with
  | some hagrees =>
    cases h' with
    | some hagrees' => exact .some (hagrees.trans hagrees')
  | none =>
    cases h'
    exact .none

/-- Notations with the same name, tag and fields; label, supertypes and source may differ. -/
def Redocuments (t t' : TypeNotation) : Prop := t.Agrees t' ∧ t'.descriptor = t.descriptor

end TypeNotation

/-! ### Schemas -/

namespace Schema

variable {S S' S'' : Schema} {v w : Value ω}

/-- Of two schemas one tells the same of each tag in a value as the other does. -/
def TellsSame (S S' : Schema) (v : Value ω) : Prop := v.EachDescribed fun descriptor _ =>
  Option.Rel TypeNotation.Agrees (S.findByDescriptor? descriptor) (S'.findByDescriptor? descriptor)

/-- What is told of a value includes what is told of its parts. -/
theorem TellsSame.part (h : S.TellsSame S' w) (hv : v.PartOf w) : S.TellsSame S' v :=
  Value.EachDescribed.part h hv

/-- Two schemas tell the same either way round. -/
theorem TellsSame.symm (h : S.TellsSame S' v) : S'.TellsSame S v :=
  fun descriptor body hpart => TypeNotation.Agrees.rel_symm (h descriptor body hpart)

/-- Telling the same goes on from one schema to the next. -/
theorem TellsSame.trans (h : S.TellsSame S' v) (h' : S'.TellsSame S'' v) : S.TellsSame S'' v :=
  fun descriptor body hpart =>
    TypeNotation.Agrees.rel_trans (h descriptor body hpart) (h' descriptor body hpart)

/-- Schemas that tell the same list the same tags. -/
theorem TellsSame.listsAlike (h : S.TellsSame S' v) : S.ListsAlike S' v := by
  intro descriptor body hpart
  have hisSome : ∀ {found found' : Option TypeNotation},
      Option.Rel TypeNotation.Agrees found found' → found'.isSome = found.isSome := by
    intro found found' hrel
    cases hrel <;> rfl
  exact hisSome (h descriptor body hpart)

/-- Schemas for a value that differ in the order of notations, of which no tag in the value refers
to two, in what notations document, and in notations that no tag in the value refers to. -/
inductive Redocuments (v : Value ω) : Schema → Schema → Prop
  | permute {types types'} : types'.Perm types →
      v.EachDescribed (fun descriptor _ => ∀ t ∈ types, ∀ u ∈ types,
        t.descriptor.admits descriptor = true → u.descriptor.admits descriptor = true → t = u) →
      Redocuments v ⟨types⟩ ⟨types'⟩
  | retell {types types'} : List.Forall₂ TypeNotation.Redocuments types types' →
      Redocuments v ⟨types⟩ ⟨types'⟩
  | add {before after type} :
      v.EachDescribed (fun descriptor _ => type.descriptor.admits descriptor = false) →
      Redocuments v ⟨before ++ after⟩ ⟨before ++ type :: after⟩
  | symm {S₁ S₂} : Redocuments v S₁ S₂ → Redocuments v S₂ S₁
  | trans {S₁ S₂ S₃} : Redocuments v S₁ S₂ → Redocuments v S₂ S₃ → Redocuments v S₁ S₃

/-- Of notations none of which is found before another one, each order has the same one first. -/
theorem find?_perm {types types' : List TypeNotation} (hperm : types'.Perm types)
    {p : TypeNotation → Bool} (hone : ∀ t ∈ types, ∀ u ∈ types, p t = true → p u = true → t = u) :
    types'.find? p = types.find? p := by
  cases h : types.find? p with
  | none =>
    rw [List.find?_eq_none] at h ⊢
    exact fun t ht => h t (hperm.mem_iff.1 ht)
  | some t =>
    have ht := List.mem_of_find?_eq_some h
    have hfound : (types'.find? p).isSome = true :=
      List.find?_isSome.2 ⟨t, hperm.mem_iff.2 ht, List.find?_some h⟩
    obtain ⟨u, hu⟩ := Option.isSome_iff_exists.1 hfound
    have hsame := hone u (hperm.mem_iff.1 (List.mem_of_find?_eq_some hu)) t ht
      (List.find?_some hu) (List.find?_some h)
    rw [hu, hsame]

/-- By induction on the notations: descriptors stay where they are, so the same position is found.
-/
theorem find?_retold {types types' : List TypeNotation}
    (h : List.Forall₂ TypeNotation.Redocuments types types') (descriptor : Value ω) :
    Option.Rel TypeNotation.Agrees (types.find? (fun t => t.descriptor.admits descriptor))
      (types'.find? (fun t => t.descriptor.admits descriptor)) := by
  induction h with
  | nil => exact .none
  | @cons t t' _ _ htt _ ih =>
    rw [List.find?_cons, List.find?_cons, htt.2]
    cases t.descriptor.admits descriptor with
    | true => exact .some htt.1
    | false => exact ih

/-- Redocumented schemas tell the same of each tag. -/
theorem Redocuments.tellsSame (h : Redocuments v S S') : S.TellsSame S' v := by
  induction h with
  | permute hperm hone =>
    intro descriptor body hpart
    rw [findByDescriptor?, findByDescriptor?, find?_perm hperm (hone descriptor body hpart)]
    exact TypeNotation.Agrees.rel_refl _
  | retell hretold => exact fun descriptor _ _ => find?_retold hretold descriptor
  | add hnone =>
    intro descriptor body hpart
    rw [findByDescriptor?, findByDescriptor?, List.find?_append, List.find?_append,
      List.find?_cons, hnone descriptor body hpart]
    exact TypeNotation.Agrees.rel_refl _
  | symm _ ih => exact ih.symm
  | trans _ _ ih ih' => exact ih.trans ih'

end Schema

/-! ### Codecs -/

section Codecs

variable {S S' : Schema}

/-- Two ways of reading give the same for a value of which the schemas tell the same, and have only
such values read. -/
def ReadsAlike (S S' : Schema) (read read' : Schema → Value ω → Reading ω ω) : Prop :=
  ∀ body, S.TellsSame S' body →
    read' S' body = read S body ∧ (read S body).AsksOnly (S.TellsSame S' ·)

/-- A custom codec that looks for nothing in a schema but what it tells of tags in the body, and of
that not at labels, supertypes and sources. -/
def CustomCodec.IgnoresDocumentation (c : CustomCodec ω) : Prop :=
  ∀ S S' : Schema, ReadsAlike S S' c.read c.read

/-- Codecs that have parts of a body read, and look at whether tags are listed, read alike. -/
theorem ReadsParts.readsAlike {read : Schema → Value ω → Reading ω ω} (h : ReadsParts read)
    (S S' : Schema) : ReadsAlike S S' read read :=
  fun body hsame => ⟨h.congr hsame.listsAlike,
    (h.asksOnly S body).imp fun _ hpart => hsame.part hpart⟩

end Codecs

/-! ### Caches -/

/-- Caches of the same default codecs, and of codecs for the same older shapes that read alike. -/
structure Caches.ReadAlike (c c' : Caches ω) : Prop where
  live : ∀ name, c'.live.find? name = c.live.find? name
  evolution : ∀ key, Option.Rel (fun x x' => EvolutionCodec.read x = EvolutionCodec.read x')
    (c.evolution.find? key) (c'.evolution.find? key)

/-- Caches read as they do themselves. -/
theorem Caches.ReadAlike.refl (c : Caches ω) : c.ReadAlike c := by
  refine ⟨fun name => rfl, fun key => ?_⟩
  cases c.evolution.find? key with
  | some x => exact .some rfl
  | none => exact .none

namespace Setting

variable (s : Setting ω) {S S' : Schema}

/-- The default codec is built from the setting, which is one and the same. -/
theorem together_liveCodec (name : String) :
    Together Caches.ReadAlike Eq (s.liveCodec name) (s.liveCodec name) := by
  have hboth : ∀ {c c' : Caches ω}, c.ReadAlike c' →
      Like Eq (outcome (s.liveCodec name c)) (outcome (s.liveCodec name c')) ∧
        (final (s.liveCodec name c)).ReadAlike (final (s.liveCodec name c')) := by
    intro c c' h
    rw [liveCodec, get_bind_apply, get_bind_apply, h.live name]
    cases c.live.find? name with
    | some x => exact ⟨.ok rfl, h⟩
    | none =>
      cases s.registry.shape? name with
      | none => exact ⟨.error _, h⟩
      | some shape =>
        dsimp only
        cases ObjectCodec.build shape s.registry with
        | error e => exact ⟨.error e, h⟩
        | ok x =>
          refine ⟨.ok rfl, fun name' => ?_, h.evolution⟩
          show (c'.live.insert name x).find? name' = (c.live.insert name x).find? name'
          rw [Table.find?_insert, Table.find?_insert, h.live name']
  exact ⟨fun h => (hboth h).1, fun h => (hboth h).2⟩

/-- Make the codec of an older shape with the default codec of its type, and keep it. -/
def keepMade (key : String × String) (old : CompositeType) (live : ObjectCodec ω) :
    Building ω (EvolutionCodec ω) :=
  match EvolutionCodec.make old live s.registry with
  | .error e => throw e
  | .ok x => do
    modify fun c => { c with evolution := c.evolution.insert key x }
    return x

/-- Older shapes of one name with the same fields have codecs that read alike. -/
theorem together_evolutionCodec {old old' : CompositeType} (hname : old'.name = old.name)
    (hfields : old'.fields = old.fields) :
    Together Caches.ReadAlike (fun x x' => EvolutionCodec.read x = EvolutionCodec.read x')
      (s.evolutionCodec old) (s.evolutionCodec old') := by
  -- The key is made of name and fields, which documentation does not touch.
  have hkey : evolutionKey old' = evolutionKey old := by
    rw [evolutionKey, evolutionKey, hname, hfields]
  have hmake : ∀ live live', live = live' →
      Together Caches.ReadAlike (fun x x' => EvolutionCodec.read x = EvolutionCodec.read x')
        (s.keepMade (evolutionKey old) old live) (s.keepMade (evolutionKey old) old' live') := by
    rintro live _ rfl
    have hlike : Like (fun x x' => EvolutionCodec.read x = EvolutionCodec.read x')
        (EvolutionCodec.make old live s.registry) (EvolutionCodec.make old' live s.registry) :=
      EvolutionCodec.like_make hfields rfl live.composite.provides
    unfold keepMade
    revert hlike
    generalize EvolutionCodec.make old live s.registry = made
    generalize EvolutionCodec.make old' live s.registry = made'
    rintro (hread | e)
    · refine ⟨fun _ => .ok hread, fun h => ⟨h.live, fun key => ?_⟩⟩
      show Option.Rel _ (Table.find? (Table.insert _ _ _) key)
        (Table.find? (Table.insert _ _ _) key)
      rw [Table.find?_insert, Table.find?_insert]
      split
      · exact .some hread
      · exact h.evolution key
    · exact .throw e
  -- Either a codec is kept on both sides, or one is made on both.
  have hboth : ∀ {c c' : Caches ω}, c.ReadAlike c' →
      Like (fun x x' => EvolutionCodec.read x = EvolutionCodec.read x')
        (outcome (s.evolutionCodec old c)) (outcome (s.evolutionCodec old' c')) ∧
        (final (s.evolutionCodec old c)).ReadAlike (final (s.evolutionCodec old' c')) := by
    intro c c' h
    have hkept := h.evolution (evolutionKey old)
    rw [evolutionCodec, evolutionCodec, get_bind_apply, get_bind_apply, hkey, hname]
    revert hkept
    generalize c.evolution.find? (evolutionKey old) = kept
    generalize c'.evolution.find? (evolutionKey old) = kept'
    rintro (hread | -)
    · exact ⟨.ok hread, h⟩
    · have htogether := (s.together_liveCodec old.name).bind hmake
      exact ⟨htogether.like h, htogether.keeps h⟩
  exact ⟨fun h => (hboth h).1, fun h => (hboth h).2⟩

variable [LiveObject ω]

/-- What is read of a tag's values is the same, whatever else two schemas tell. -/
theorem together_readerFor (hcustoms : ∀ b ∈ s.customs.codecs.values, b.codec.IgnoresDocumentation)
    {descriptor : Value ω} (hfind : Option.Rel TypeNotation.Agrees
      (S.findByDescriptor? descriptor) (S'.findByDescriptor? descriptor)) :
    Together Caches.ReadAlike (fun k k' => ReadsAlike S S' k.read k'.read)
      (s.readerFor S descriptor) (s.readerFor S' descriptor) := by
  unfold readerFor
  -- Nothing but the notations found for the tag is used of the two schemas.
  revert hfind
  generalize S.findByDescriptor? descriptor = found
  generalize S'.findByDescriptor? descriptor = found'
  rintro (⟨hagrees⟩ | -)
  · rename_i type type'
    have hread : ∀ {name : String} {b : BoundCodec ω}, s.customs.codec? name = some b →
        ReadsAlike S S' (Codec.custom b).read (Codec.custom b).read :=
      fun hb => hcustoms _ (Table.mem_values_of_find? hb) S S'
    dsimp only
    rw [hagrees.name_eq]
    cases hcustom : s.customs.codec? type.name with
    | some b => exact .pure (hread hcustom)
    | none =>
      refine (s.together_liveCodec type.name).bind ?_
      rintro live _ rfl
      -- The fields told on both sides are the same, and so is the check against the live ones.
      have hsame : sameFields type' live = sameFields type live :=
        hagrees.sameFields_eq live live.composite.provides
      rw [hsame]
      split
      · exact .pure (live.readsParts.readsAlike S S')
      · cases hagrees with
        | restricted hname => exact .throw _
        | @composite old old' hname hfields =>
          -- The codecs of the two older shapes are looked for under one fingerprint.
          have hold : Together Caches.ReadAlike (fun k k' => ReadsAlike S S' k.read k'.read)
              (do return Codec.evolution (← s.evolutionCodec old))
              (do return Codec.evolution (← s.evolutionCodec old')) := by
            refine (s.together_evolutionCodec hname hfields).bind fun x x' hx => .pure ?_
            show ReadsAlike S S' x.read x'.read
            rw [← hx]
            exact x.readsParts.readsAlike S S'
          dsimp only [TypeNotation.composite?]
          rw [hfields]
          split
          · exact (Together.throw (R := Eq) _).bind fun _ _ _ => hold
          · exact hold
  · dsimp only
    cases hcustom : s.customs.codecFor? descriptor with
    | some b => exact .pure (hcustoms b (CustomCodecs.mem_values_of_codecFor? hcustom) S S')
    | none => exact .throw _

/-- By induction on the room: the readers chosen are of one name and read alike, and so do the
requests that they make. -/
theorem together_readWithin
    (hcustoms : ∀ b ∈ s.customs.codecs.values, b.codec.IgnoresDocumentation) (room : Nat)
    {v : Value ω} (h : S.TellsSame S' v) :
    Together Caches.ReadAlike Eq (s.readWithin S room v) (s.readWithin S' room v) := by
  induction room generalizing v with
  | zero => cases v <;> exact .throw _
  | succ room ih =>
    cases v with
    | described descriptor body =>
      refine (s.together_readerFor hcustoms (h descriptor body .refl)).bind fun k k' hk => ?_
      obtain ⟨hsame, hasks⟩ := hk body (h.part (.body .refl))
      rw [hsame]
      exact run_together (fun q hq => ih hq) hasks
    | _ => exact .throw _

end Setting

/-! ### Decoding -/

namespace Factory

variable [LiveObject ω] {f : Factory ω} {e e' : Envelope ω} {bytes bytes' : List UInt8}

omit [LiveObject ω] in
/-- The type at the root is told by the notation of the root's tag. -/
theorem rootType_of_tellsSame (hbody : e'.body = e.body)
    (h : e.schema.TellsSame e'.schema e.body) : rootType e' = rootType e := by
  obtain ⟨body, schema⟩ := e
  obtain ⟨body', schema'⟩ := e'
  subst hbody
  cases body' with
  | described descriptor body =>
    have hroot := h descriptor body .refl
    rw [rootType, rootType]
    dsimp only at hroot ⊢
    revert hroot
    generalize schema.findByDescriptor? descriptor = found
    generalize schema'.findByDescriptor? descriptor = found'
    rintro (⟨hagrees⟩ | -)
    · exact congrArg Except.ok hagrees.name_eq
    · rfl
  | _ => rfl

/-- Payloads of one body, with schemas that tell the same of its tags up to what they document, are
decoded alike by factories whose custom codecs ignore documentation: the same object comes out, or
the same error. -/
theorem decode_redocumented (hparse : Envelope.parse bytes f.config.maxDepth = .ok e)
    (hparse' : Envelope.parse bytes' f.config.maxDepth = .ok e') (hbody : e'.body = e.body)
    (hschema : Schema.Redocuments e.body e.schema e'.schema)
    (hcustoms : ∀ b ∈ f.customs.codecs.values, b.codec.IgnoresDocumentation) (t : HostType) :
    outcome (decode t bytes f) = outcome (decode t bytes' f) := by
  have hsame := hschema.tellsSame
  -- Both start from the caches of one factory, which read alike trivially.
  have hread : outcome (f.toSetting.readWithin e.schema f.config.maxDepth e.body f.caches) =
      outcome (f.toSetting.readWithin e'.schema f.config.maxDepth e.body f.caches) :=
    eq_of_like ((f.toSetting.together_readWithin hcustoms f.config.maxDepth hsame).like
      (.refl f.caches))
  rw [outcome_decode_eq, outcome_decode_eq, openPayload_of_parse hparse,
    openPayload_of_parse hparse', rootType_of_tellsSame hbody hsame]
  cases f.nameOfHost t with
  | error err => rfl
  | ok expected =>
    cases rootType e with
    | error err => rfl
    | ok found =>
      show ((if found ≠ expected then _ else Except.ok e) >>= _) =
        ((if found ≠ expected then _ else Except.ok e') >>= _)
      split
      · rfl
      · show outcome (f.toSetting.readWithin e.schema f.config.maxDepth e.body f.caches) >>= _ =
          outcome (f.toSetting.readWithin e'.schema f.config.maxDepth e'.body f.caches) >>= _
        rw [hbody, hread]

end Factory

/-! ### A box with a note, and notes alone -/

namespace Boxes

/-- What is told of boxes, with a label and a supertype. -/
def boxTold : CompositeType := { boxType with label := some "a box", provides := ["Held"] }

/-- What is told of notes, with a label. -/
def noteTold : CompositeType := { noteType false with label := some "a note" }

/-- A type that no tag in the box's payload refers to; its fields may have one name. -/
def extraType (repeats : Bool) : CompositeType :=
  ⟨"Extra", none, [], ⟨"extra", none⟩,
    [⟨"left", "string", true⟩, ⟨if repeats then "left" else "right", "string", true⟩]⟩

/-- The envelope of the box's payload with another schema. -/
def redocumented : Envelope Entity :=
  ⟨body, ⟨[.composite (extraType false), .composite noteTold, .composite boxTold]⟩⟩

/-- The tags of the box and of the note are those of their notations alone. -/
theorem redocuments_box : Schema.Redocuments body (envelope false).schema redocumented.schema := by
  have htags : ∀ {P : Value Entity → Value Entity → Prop}, (∀ b, P boxType.descriptor.toValue b) →
      (∀ b, P (.symbol "note") b) → body.EachDescribed P := by
    intro P hbox hnote
    refine Value.eachDescribed_described.2 ⟨hbox _, Value.eachDescribed_list.2 ?_⟩
    refine List.forall_mem_singleton.2 (Value.eachDescribed_list.2 ?_)
    refine List.forall_mem_singleton.2 (Value.eachDescribed_described.2 ⟨hnote _, ?_⟩)
    refine Value.eachDescribed_list.2 (List.forall_mem_singleton.2 ?_)
    rintro descriptor body ⟨⟩
  have hbox : Descriptor.admits ⟨"note", none⟩
      (boxType.descriptor.toValue : Value Entity) = false := by decide +kernel
  have hnote : boxType.descriptor.admits (.symbol "note" : Value Entity) = false := by
    decide +kernel
  have hextra : Descriptor.admits ⟨"extra", none⟩
      (boxType.descriptor.toValue : Value Entity) = false := by decide +kernel
  have htold : Schema.Redocuments body (envelope false).schema
      ⟨[.composite boxTold, .composite noteTold]⟩ :=
    .retell (.cons ⟨.composite rfl rfl, rfl⟩ (.cons ⟨.composite rfl rfl, rfl⟩ .nil))
  have hswapped : Schema.Redocuments body ⟨[.composite boxTold, .composite noteTold]⟩
      ⟨[.composite noteTold, .composite boxTold]⟩ := by
    -- Each tag is that of one of the two notations.
    have hone : ∀ {types : List TypeNotation} {tag : Value Entity} (type : TypeNotation),
        (∀ t ∈ types, t.descriptor.admits tag = true → t = type) →
        ∀ t ∈ types, ∀ u ∈ types,
          t.descriptor.admits tag = true → u.descriptor.admits tag = true → t = u :=
      fun type honly t ht u hu h h' => (honly t ht h).trans (honly u hu h').symm
    refine .permute (.swap _ _ _) (htags (fun _ => hone (.composite boxTold) ?_)
      fun _ => hone (.composite noteTold) ?_)
    · refine List.forall_mem_cons.2 ⟨fun _ => rfl, List.forall_mem_singleton.2 fun h => ?_⟩
      exact absurd (hbox.symm.trans h) Bool.false_ne_true
    · refine List.forall_mem_cons.2 ⟨fun h => ?_, List.forall_mem_singleton.2 fun _ => rfl⟩
      exact absurd (hnote.symm.trans h) Bool.false_ne_true
  have hadded : Schema.Redocuments body ⟨[] ++ [.composite noteTold, .composite boxTold]⟩
      ⟨[] ++ .composite (extraType false) :: [.composite noteTold, .composite boxTold]⟩ :=
    .add (htags (fun _ => hextra) fun _ => rfl)
  exact htold.trans (hswapped.trans hadded)

/-- The payload of the box parses to its envelope. -/
theorem parse_box : Envelope.parse (header ++ (envelope false).toValue.encode.bytes)
    (factory false).config.maxDepth = .ok (envelope false) := by
  have hdistinct : (envelope false).schema.Distinct := by
    refine List.forall_mem_cons.2 ⟨?_, List.forall_mem_singleton.2 ?_⟩
    · exact List.nodup_singleton "item"
    · exact List.nodup_singleton "text"
  exact Envelope.parse_toBytes (toBytes_box false) hdistinct (nesting_box false)

/-- The payload with other documentation parses to its own envelope. -/
theorem parse_redocumented : Envelope.parse (header ++ redocumented.toValue.encode.bytes)
    (factory false).config.maxDepth = .ok redocumented := by
  have hcomplete : redocumented.toValue.encode.failure = none :=
    Option.isNone_iff_eq_none.1 (by decide +kernel)
  have hnesting : redocumented.toValue.nesting ≤ 64 := by decide +kernel
  have hdistinct : redocumented.schema.Distinct := by
    refine List.forall_mem_cons.2 ⟨?_, List.forall_mem_cons.2 ⟨?_, List.forall_mem_singleton.2 ?_⟩⟩
    · show ["left", "right"].Nodup
      decide
    · exact List.nodup_singleton "text"
    · exact List.nodup_singleton "item"
  exact Envelope.parse_toBytes (Envelope.toBytes_eq_ok_iff.2 ⟨hcomplete, rfl⟩) hdistinct hnesting

/-- The codec of notes does not look at the schema. -/
theorem ignoresDocumentation_note (twice : Bool) :
    (note twice).toCodec.IgnoresDocumentation := fun S S' =>
  (note twice).readsParts.readsAlike S S'

end Boxes

namespace Factory

open Boxes

/-- A box is decoded alike with its own schema and with one that has labels, another order and a
type more. -/
theorem decode_redocumented_box :
    Envelope.parse (header ++ (envelope false).toValue.encode.bytes)
      (factory false).config.maxDepth = .ok (envelope false) ∧
    Envelope.parse (header ++ redocumented.toValue.encode.bytes) (factory false).config.maxDepth =
      .ok redocumented ∧
    redocumented.body = (envelope false).body ∧
    Schema.Redocuments (envelope false).body (envelope false).schema redocumented.schema ∧
    (∀ b ∈ (factory false).customs.codecs.values, b.codec.IgnoresDocumentation) ∧
    outcome (decode (Entity.slotType 0) (header ++ (envelope false).toValue.encode.bytes)
        (factory false)) =
      outcome (decode (Entity.slotType 0) (header ++ redocumented.toValue.encode.bytes)
        (factory false)) := by
  have hcustoms : ∀ b ∈ (factory false).customs.codecs.values, b.codec.IgnoresDocumentation :=
    List.forall_mem_singleton.2 (ignoresDocumentation_note false)
  exact ⟨parse_box, parse_redocumented, rfl, redocuments_box, hcustoms,
    decode_redocumented parse_box parse_redocumented rfl redocuments_box hcustoms _⟩

end Factory

namespace Boxes

/-- A factory of notes alone, with a custom codec for them. -/
def noteFactory (codec : CustomCodec Entity) : Factory Entity :=
  ⟨⟨.empty, ⟨⟨[("Note", ⟨codec, .composite (noteType false)⟩)]⟩,
    ⟨[(Entity.slotType 1, "Note")]⟩, .inserted⟩, .default⟩, .empty⟩

/-- A codec that reads the label of the first notation in place of a note's text. -/
def labelReader : CustomCodec Entity :=
  { (note false).toCodec with
    read := fun schema _ => pure (.record 1 [("text", .ofOption (schema.types.head?.bind fun t =>
      t.composite?.bind fun c => c.label.map .string))]) }

/-- The notation of notes alone. -/
def alone : List TypeNotation := [.composite (noteType false)]

/-- The notation of notes with a label. -/
def told : List TypeNotation := [.composite noteTold]

/-- The notation of notes behind one of another type with two fields of one name. -/
def joined : List TypeNotation := .composite (extraType true) :: alone

/-- The envelope of a note's payload with some schema. -/
def noteEnvelope (types : List TypeNotation) : Envelope Entity :=
  ⟨.described (.symbol "note") (.list [.string "hi"]), ⟨types⟩⟩

/-- The payload of a note with some schema. -/
def notePayload (types : List TypeNotation) : List UInt8 :=
  header ++ (noteEnvelope types).toValue.encode.bytes

/-- The three payloads of the note can be written, and are nested within the usual limit. -/
theorem toBytes_note : ∀ types ∈ [alone, told, joined],
    (noteEnvelope types).toBytes = .ok (notePayload types) ∧
      (noteEnvelope types).toValue.nesting ≤ 64 := by
  have hlimits : ∀ types ∈ [alone, told, joined],
      (noteEnvelope types).toValue.encode.failure.isNone = true ∧
        (noteEnvelope types).toValue.nesting ≤ 64 := by decide +kernel
  intro types hmem
  obtain ⟨hcomplete, hnesting⟩ := hlimits types hmem
  exact ⟨Envelope.toBytes_eq_ok_iff.2 ⟨Option.isNone_iff_eq_none.1 hcomplete, rfl⟩, hnesting⟩

/-- The payloads of the note parse, with and without a second notation. -/
theorem parse_note (codec : CustomCodec Entity) : ∀ types ∈ [alone, told],
    Envelope.parse (notePayload types) (noteFactory codec).config.maxDepth =
      .ok (noteEnvelope types) := by
  intro types hmem
  have hmem' : types ∈ [alone, told, joined] := List.mem_append_left [joined] hmem
  obtain ⟨hbytes, hnesting⟩ := toBytes_note types hmem'
  refine Envelope.parse_toBytes hbytes ?_ hnesting
  obtain rfl | hmem := List.mem_cons.1 hmem
  · exact List.forall_mem_singleton.2 (List.nodup_singleton "text")
  · obtain rfl := List.mem_singleton.1 hmem
    exact List.forall_mem_singleton.2 (List.nodup_singleton "text")

/-- The note is the only described value in its envelope. -/
theorem eachDescribed_note {P : Value Entity → Value Entity → Prop}
    (h : ∀ body, P (.symbol "note") body) (types : List TypeNotation) :
    (noteEnvelope types).body.EachDescribed P := by
  refine Value.eachDescribed_described.2 ⟨h _, Value.eachDescribed_list.2 ?_⟩
  refine List.forall_mem_singleton.2 ?_
  rintro descriptor body ⟨⟩

end Boxes

namespace Factory

open Boxes

/-- With a type more that has two fields of one name, which no tag refers to, a payload is refused;
and a custom codec that looks at labels reads something else where only a label differs. -/
theorem not_decode_redocumented :
    ((noteEnvelope alone).toBytes = .ok (notePayload alone) ∧
      (noteEnvelope alone).toValue.nesting ≤ 64 ∧
      (noteEnvelope joined).toBytes = .ok (notePayload joined) ∧
      (noteEnvelope joined).toValue.nesting ≤ 64 ∧
      Schema.Redocuments (noteEnvelope alone).body ⟨alone⟩ ⟨joined⟩ ∧
      outcome (decode (Entity.slotType 1) (notePayload alone) (noteFactory (note false).toCodec)) =
        .ok aNote ∧
      outcome (decode (Entity.slotType 1) (notePayload joined)
        (noteFactory (note false).toCodec)) =
          .error (.malformed (.repeatedField "Extra" "left"))) ∧
    (noteEnvelope told).toBytes = .ok (notePayload told) ∧
    (noteEnvelope told).toValue.nesting ≤ 64 ∧
    Schema.Redocuments (noteEnvelope alone).body ⟨alone⟩ ⟨told⟩ ∧
    outcome (decode (Entity.slotType 1) (notePayload alone) (noteFactory labelReader)) =
      .ok (.record 1 [("text", .null)]) ∧
    outcome (decode (Entity.slotType 1) (notePayload told) (noteFactory labelReader)) =
      .ok (.record 1 [("text", .string "a note")]) := by
  obtain ⟨halone, hnesting⟩ := toBytes_note alone (by decide)
  obtain ⟨htold, hnestingTold⟩ := toBytes_note told (by decide)
  obtain ⟨hjoined, hnestingJoined⟩ := toBytes_note joined (by decide)
  -- The added notation repeats a field name, for which a payload is refused before anything is
  -- read.
  have hrefused : Envelope.parse (ω := Entity) (notePayload joined)
      (noteFactory (note false).toCodec).config.maxDepth =
        .error (.malformed (.repeatedField "Extra" "left")) :=
    (Envelope.parse_eq_ofValue hjoined hnestingJoined).trans rfl
  have hjoin : Schema.Redocuments (noteEnvelope alone).body ⟨[] ++ alone⟩
      ⟨[] ++ .composite (extraType true) :: alone⟩ :=
    .add (eachDescribed_note (fun _ => rfl) alone)
  have htell : Schema.Redocuments (noteEnvelope alone).body ⟨alone⟩ ⟨told⟩ :=
    .retell (.cons ⟨.composite rfl rfl, rfl⟩ .nil)
  refine ⟨⟨halone, hnesting, hjoined, hnestingJoined, hjoin, ?_, ?_⟩, htold, hnestingTold, htell,
    ?_, ?_⟩
  · rw [outcome_decode_eq, openPayload_of_parse (parse_note _ alone (by decide))]
    rfl
  · rw [outcome_decode_eq, openPayload, hrefused]
    rfl
  · rw [outcome_decode_eq, openPayload_of_parse (parse_note _ alone (by decide))]
    rfl
  · rw [outcome_decode_eq, openPayload_of_parse (parse_note _ told (by decide))]
    rfl

end Factory

end SelfDescribing
