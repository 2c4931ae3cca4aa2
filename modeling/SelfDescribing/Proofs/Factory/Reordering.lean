import SelfDescribing.Proofs.Codec.Scanning
import SelfDescribing.Proofs.Envelope.Reading
import SelfDescribing.Proofs.Factory.Relisting

namespace SelfDescribing

open Steps Exchange

/-!
# Reading values that differ in order

Whichever codec is chosen for a value, its items are read field by field, by name, so that values
of which one lists the fields in another order are read alike.

* `Setting.reads_fields`, `Setting.reads_misfit` — what is read of a value whose type has fields:
  an argument for each parameter, by name, whichever codec is chosen.
* `Setting.alike_reads` — values that differ in order and descriptors are read alike.

By induction on the room.  Which codec is chosen may differ on the two sides, as one payload may
list the fields in the live order and the other one may not; but both read by name, so that the
arguments are the same.
-/

variable {ω : Type} [LiveObject ω] {s : Setting ω} {S S' : Schema}

namespace Setting

/-! ### Values of a type with fields -/

section Fields

variable {descriptor : Value ω} {old : CompositeType}

/-- A type with fields is read by its default codec or as an old shape. -/
theorem chooses_composite (hevolution : s.config.evolution = true)
    (hfind : S.findByDescriptor? descriptor = some (.composite old))
    (hcustom : s.customs.codec? old.name = none) :
    s.chooses S descriptor = s.buildLive old.name >>= fun live =>
      if (live.composite.descriptor.admits descriptor &&
          decide (old.fields = live.composite.fields)) = true then .ok (.object live)
      else EvolutionCodec.make old live s.registry >>= fun x => .ok (.evolution x) := by
  -- A composite always tells its fields, and evolution is on.
  have hcustom' : s.customs.codec? (TypeNotation.composite old).name = none := hcustom
  rw [chooses, hfind]
  simp only [hcustom', hevolution, Bool.not_true, Bool.false_eq_true, if_false]
  show (s.buildLive old.name >>= fun live => _) = _
  cases hbuild : s.buildLive old.name with
  | error e => rfl
  | ok live =>
    show (if (live.composite.descriptor.admits descriptor &&
      decide (old.fields = live.composite.fields)) = true then _ else _) =
        if (live.composite.descriptor.admits descriptor &&
          decide (old.fields = live.composite.fields)) = true then _ else _
    split
    · rfl
    · show (s.makeOld old >>= _) = _
      rw [makeOld, hbuild]
      rfl

/-- Whichever codec is chosen, the fields of a body are read by name. -/
theorem reads_fields (hevolution : s.config.evolution = true)
    (hfind : S.findByDescriptor? descriptor = some (.composite old))
    (hcustom : s.customs.codec? old.name = none)
    (hreparses : ∀ {live}, s.buildLive old.name = .ok live →
      old.fields = live.composite.fields → live.Reparses)
    {items : List (Value ω)} (hlength : items.length = old.fields.length) (room : Nat) :
    s.reads S (room + 1) (.described descriptor (.list items)) = s.makeOld old >>= fun x =>
      (x.constructor.readNamed S (old.fields.zip items)).eval (s.reads S room) := by
  have hfields : old.fields = (old.fields.zip items).map (·.1) := (fields_zip hlength).symm
  have hitems : items = (old.fields.zip items).map (·.2) := (items_zip hlength).symm
  show (s.chooses S descriptor >>= fun codec => _) = _
  rw [chooses_composite hevolution hfind hcustom, makeOld]
  cases hbuild : s.buildLive old.name with
  | error e => rfl
  | ok live =>
    obtain ⟨shape, -, hbuilt⟩ := buildLive_eq_ok hbuild
    show ((if (live.composite.descriptor.admits descriptor &&
      decide (old.fields = live.composite.fields)) = true then _ else _) >>= _) =
        EvolutionCodec.make old live s.registry >>= _
    split
    · rename_i hsame
      have hlive : old.fields = live.composite.fields := by
        rw [Bool.and_eq_true] at hsame
        exact of_decide_eq_true hsame.2
      -- The default codec reads by name too, so an old shape with these fields would do.
      show (live.read S (.list items)).eval (s.reads S room) = _
      cases hk : live.constructor with
      | none =>
        -- Neither codec can construct the objects of a type without a constructor.
        show (live.construct S items).eval _ = _
        rw [ObjectCodec.construct, EvolutionCodec.make, hk]
        rfl
      | some k =>
        have hparses := hreparses hbuild hlive
        obtain ⟨x, hmake⟩ := EvolutionCodec.make_of_perm hbuilt hparses hk (.of_eq hlive)
        obtain ⟨k', hk', rfl⟩ := EvolutionCodec.make_eq_ok hmake
        cases hk.symm.trans hk'
        rw [hmake]
        conv_lhs => rw [hitems]
        rw [ObjectCodec.read_named hbuilt hparses hk (hlive.symm.trans hfields)]
        rfl
    · cases hmake : EvolutionCodec.make old live s.registry with
      | error e => rfl
      | ok x =>
        obtain ⟨k, hk, hx⟩ := EvolutionCodec.make_eq_ok hmake
        have hparams := (ObjectCodec.params_of_build hbuilt hk).1
        show (x.read S (.list items)).eval _ = (x.constructor.readNamed S _).eval _
        conv_lhs => rw [hitems]
        rw [EvolutionCodec.read_named hmake hk hparams hfields, hx]

/-- A body that has not one item for each field is malformed, if the type's fields can be reconciled
with the live ones at all. -/
theorem reads_misfit (hevolution : s.config.evolution = true)
    (hfind : S.findByDescriptor? descriptor = some (.composite old))
    (hcustom : s.customs.codec? old.name = none)
    (hreparses : ∀ {live}, s.buildLive old.name = .ok live → live.Reparses)
    (hconcrete : ∀ {shape}, s.registry.shape? old.name = some shape →
      shape.kind.isConcrete = true)
    {body : Value ω} (hbody : ¬ body.HasItems old.fields.length) (room : Nat) :
    ∃ e, s.reads S (room + 1) (.described descriptor body) =
      s.makeOld old >>= fun _ => .error (.malformed e) := by
  show ∃ e, (s.chooses S descriptor >>= fun codec => _) = _
  rw [chooses_composite hevolution hfind hcustom, makeOld]
  cases hbuild : s.buildLive old.name with
  | error e => exact ⟨.rootUnlisted, rfl⟩
  | ok live =>
    obtain ⟨shape, hshape, hbuilt⟩ := buildLive_eq_ok hbuild
    obtain ⟨k, hk⟩ := ObjectCodec.constructor_of_build hbuilt (hconcrete hshape)
    show ∃ e, ((if (live.composite.descriptor.admits descriptor &&
      decide (old.fields = live.composite.fields)) = true then _ else _) >>= _) =
        EvolutionCodec.make old live s.registry >>= _
    split
    · rename_i hsame
      have hlive : old.fields = live.composite.fields := by
        rw [Bool.and_eq_true] at hsame
        exact of_decide_eq_true hsame.2
      -- The default codec has as many properties as there are fields.
      have hmisfit : ¬ body.HasItems live.properties.length := by
        rwa [hlive, ObjectCodec.fields_of_build hbuilt, List.length_map] at hbody
      obtain ⟨x, hmake⟩ := EvolutionCodec.make_of_perm hbuilt (hreparses hbuild) hk (.of_eq hlive)
      obtain ⟨e, hread⟩ := ObjectCodec.read_misfit hk hmisfit S
      refine ⟨e, ?_⟩
      show (live.read S body).eval (s.reads S room) = _
      rw [hread, hmake]
      rfl
    · cases hmake : EvolutionCodec.make old live s.registry with
      | error e => exact ⟨.rootUnlisted, rfl⟩
      | ok x =>
        obtain ⟨k', -, hx⟩ := EvolutionCodec.make_eq_ok hmake
        have hmisfit : ¬ body.HasItems x.composite.fields.length := by rwa [hx]
        obtain ⟨e, hread⟩ := EvolutionCodec.read_misfit hmisfit S
        refine ⟨e, ?_⟩
        show (x.read S body).eval _ = _
        rw [hread]
        rfl

omit [LiveObject ω] in
/-- In another order, the same old shapes can be read, with the same constructor. -/
theorem makeOld_perm {old' : CompositeType} (hname : old'.name = old.name)
    (hperm : old'.fields.Perm old.fields) (hnodup : old.fieldNames.Nodup) :
    (∃ e, s.makeOld old = .error e ∧ s.makeOld old' = .error e) ∨
      ∃ x x', s.makeOld old = .ok x ∧ s.makeOld old' = .ok x' ∧
        x'.constructor = x.constructor := by
  rw [makeOld, makeOld, hname]
  cases s.buildLive old.name with
  | error e => exact .inl ⟨e, rfl, rfl⟩
  | ok live => exact EvolutionCodec.make_perm hperm hnodup

end Fields

/-! ### Values that differ in order -/

/-- Custom codecs that ask for the same at bodies that differ in order and descriptors alone. -/
def CustomsMatch (s : Setting ω) (S S' : Schema) : Prop :=
  ∀ b ∈ s.customs.codecs.values, ∀ {body body'}, s.Relists S S' body body' →
    (b.read S body).Matches (s.Relists S S') (b.read S' body')

variable {descriptor descriptor' body body' : Value ω} {room : Nat}

/-- A custom codec for the name of a listed type comes before everything else. -/
theorem chooses_custom {type : TypeNotation} {b : BoundCodec ω}
    (hfind : S.findByDescriptor? descriptor = some type)
    (hcustom : s.customs.codec? type.name = some b) :
    s.chooses S descriptor = .ok (.custom b) := by
  rw [chooses, hfind]
  simp only [hcustom]

/-- A tag that neither schema lists is read by a custom codec for the tag, which gets the same body
twice. -/
theorem alike_reads_unlisted (hcustoms : s.CustomsMatch S S')
    (hroom : ∀ {v v'}, s.Relists S S' v v' → Alike (s.reads S room v) (s.reads S' room v'))
    (hfind : S.findByDescriptor? descriptor = none)
    (hfind' : S'.findByDescriptor? descriptor = none)
    (hbody : ∀ b, s.customs.codecFor? descriptor = some b → s.Relists S S' body body) :
    Alike (s.reads S (room + 1) (.described descriptor body))
      (s.reads S' (room + 1) (.described descriptor body)) := by
  show Alike (s.chooses S descriptor >>= _) (s.chooses S' descriptor >>= _)
  rw [chooses, chooses, hfind, hfind']
  cases hcodec : s.customs.codecFor? descriptor with
  | none => exact .error rfl
  | some b =>
    have hmem : b ∈ s.customs.codecs.values := CustomCodecs.mem_values_of_codecFor? hcodec
    exact (hcustoms b hmem (hbody b hcodec)).eval fun _ _ hv => hroom hv

/-- A custom codec for the name is chosen on both sides, and matches the two bodies itself. -/
theorem alike_reads_custom (hcustoms : s.CustomsMatch S S')
    (hroom : ∀ {v v'}, s.Relists S S' v v' → Alike (s.reads S room v) (s.reads S' room v'))
    {type type' : TypeNotation} (hfind : S.findByDescriptor? descriptor = some type)
    (hfind' : S'.findByDescriptor? descriptor' = some type') (hname : type'.name = type.name)
    (hcustom : (s.customs.codec? type.name).isSome = true) (hbody : s.Relists S S' body body') :
    Alike (s.reads S (room + 1) (.described descriptor body))
      (s.reads S' (room + 1) (.described descriptor' body')) := by
  obtain ⟨b, hb⟩ := Option.isSome_iff_exists.1 hcustom
  have hmem : b ∈ s.customs.codecs.values := Table.mem_values_of_find? hb
  show Alike (s.chooses S descriptor >>= _) (s.chooses S' descriptor' >>= _)
  rw [chooses_custom hfind hb, chooses_custom hfind' (by rwa [hname])]
  exact (hcustoms b hmem hbody).eval fun _ _ hv => hroom hv

/-- A restricted type tells no fields, so that the default codec is chosen on both sides or on none.
-/
theorem alike_reads_restricted
    (hroom : ∀ {v v'}, s.Relists S S' v v' → Alike (s.reads S room v) (s.reads S' room v'))
    {type type' : RestrictedType} (hfind : S.findByDescriptor? descriptor = some (.restricted type))
    (hfind' : S'.findByDescriptor? descriptor = some (.restricted type'))
    (hname : type'.name = type.name) (hcustom : s.customs.codec? type.name = none)
    (hbody : s.Relists S S' body body') :
    Alike (s.reads S (room + 1) (.described descriptor body))
      (s.reads S' (room + 1) (.described descriptor body')) := by
  have hcustom₁ : s.customs.codec? (TypeNotation.restricted type).name = none := hcustom
  have hcustom₂ : s.customs.codec? (TypeNotation.restricted type').name = none := by
    rw [← hcustom₁]
    exact congrArg _ hname
  show Alike (s.chooses S descriptor >>= _) (s.chooses S' descriptor >>= _)
  rw [chooses, chooses, hfind, hfind']
  simp only [hcustom₁, hcustom₂]
  show Alike ((s.buildLive type.name >>= fun live => _) >>= _)
    ((s.buildLive type'.name >>= fun live => _) >>= _)
  rw [hname]
  cases s.buildLive type.name with
  | error e => exact .error rfl
  | ok live =>
    -- No fields are told, so that the descriptor alone decides, and it is the same on both sides.
    show Alike
      ((if (live.composite.descriptor.admits descriptor && true) = true then _ else _) >>= _)
      ((if (live.composite.descriptor.admits descriptor && true) = true then _ else _) >>= _)
    split
    · exact (live.matches_read hbody).eval fun _ _ hv => hroom hv
    · exact .error rfl

/-- Moving the items of a body along with its fields does not matter. -/
theorem alike_reads_fields (hevolution : s.config.evolution = true)
    (hroom : ∀ {v v'}, s.Relists S S' v v' → Alike (s.reads S room v) (s.reads S' room v'))
    {old old' : CompositeType} (hfind : S.findByDescriptor? descriptor = some (.composite old))
    (hfind' : S'.findByDescriptor? descriptor' = some (.composite old'))
    (hname : old'.name = old.name) (hcustom : s.customs.codec? old.name = none)
    (hreparses : ∀ {live}, s.buildLive old.name = .ok live → live.Reparses)
    (hnodup : old.fieldNames.Nodup) {items middle items' : List (Value ω)}
    (hlength : items.length = old.fields.length) (hlength' : items'.length = old'.fields.length)
    (hitems : List.Forall₂ (s.Relists S S') items middle)
    (hperm : (old'.fields.zip items').Perm (old.fields.zip middle)) :
    Alike (s.reads S (room + 1) (.described descriptor (.list items)))
      (s.reads S' (room + 1) (.described descriptor' (.list items'))) := by
  have hmiddle : middle.length = old.fields.length := hitems.length_eq.symm.trans hlength
  have hnames : ((old.fields.zip middle).map (·.1.name)).Nodup := by
    rwa [names_zip hmiddle]
  have hpermFields : old'.fields.Perm old.fields := by
    have hmap := hperm.map (·.1)
    rwa [fields_zip hmiddle, fields_zip hlength'] at hmap
  have hreparses' : ∀ {live}, s.buildLive old'.name = .ok live → live.Reparses := by
    rwa [hname]
  -- The constructor takes the items by name, and finds the same ones in both orders.
  rw [reads_fields hevolution hfind hcustom (fun hlive _ => hreparses hlive) hlength,
    reads_fields hevolution hfind' (hname ▸ hcustom) (fun hlive _ => hreparses' hlive) hlength']
  obtain ⟨e, hmake, hmake'⟩ | ⟨x, x', hmake, hmake', hk⟩ := makeOld_perm hname hpermFields hnodup
  · rw [hmake, hmake']
    exact .error rfl
  · rw [hmake, hmake']
    show Alike ((x.constructor.readNamed S _).eval _) ((x'.constructor.readNamed S' _).eval _)
    rw [hk, Constructor.readNamed_perm hperm hnames]
    exact (x.constructor.matches_readNamed hitems).eval fun _ _ hv => hroom hv

/-- Where the fields are not the live ones, the default codec or one of the two orders is chosen;
all of them read by the names of fields. -/
theorem alike_reads_misfit (hevolution : s.config.evolution = true)
    {old old' : CompositeType} (hfind : S.findByDescriptor? descriptor = some (.composite old))
    (hfind' : S'.findByDescriptor? descriptor' = some (.composite old'))
    (hname : old'.name = old.name) (hcustom : s.customs.codec? old.name = none)
    (hreparses : ∀ {live}, s.buildLive old.name = .ok live → live.Reparses)
    (hconcrete : ∀ {shape}, s.registry.shape? old.name = some shape →
      shape.kind.isConcrete = true)
    (hnodup : old.fieldNames.Nodup) (hperm : old'.fields.Perm old.fields)
    (hbody : ¬ body.HasItems old.fields.length) (hbody' : ¬ body'.HasItems old.fields.length) :
    Alike (s.reads S (room + 1) (.described descriptor body))
      (s.reads S' (room + 1) (.described descriptor' body')) := by
  rw [← hperm.length_eq] at hbody'
  rw [← hname] at hcustom hreparses hconcrete
  obtain ⟨e', he'⟩ := reads_misfit hevolution hfind' hcustom hreparses hconcrete hbody' room
  rw [hname] at hcustom hreparses hconcrete
  obtain ⟨e, he⟩ := reads_misfit hevolution hfind hcustom hreparses hconcrete hbody room
  rw [he, he']
  -- Codecs for both orders can be made or neither, so that the two errors are of one kind.
  obtain ⟨e, hmake, hmake'⟩ | ⟨x, x', hmake, hmake', -⟩ := makeOld_perm hname hperm hnodup
  · rw [hmake, hmake']
    exact .error rfl
  · rw [hmake, hmake']
    exact .error rfl

/-- Values that differ in order and descriptors alone are read alike. -/
theorem alike_reads (hevolution : s.config.evolution = true) (hcustoms : s.CustomsMatch S S')
    (hdistinct : S.Distinct)
    (hreparses : ∀ type ∈ S.types, ∀ {live}, s.buildLive type.name = .ok live → live.Reparses)
    (room : Nat) {v v' : Value ω} (h : s.Relists S S' v v') :
    Alike (s.reads S room v) (s.reads S' room v') := by
  -- By the levels that are left: codecs ask for related values one level deeper.
  induction room generalizing v v' with
  | zero =>
    cases h with
    | @leaf v hv =>
      cases v with
      | list | map | described => cases hv
      | _ => exact .error rfl
    | _ => exact .error rfl
  | succ room ih =>
    have hlisted : ∀ {descriptor : Value ω} {old}, S.findByDescriptor? descriptor =
        some (.composite old) → TypeNotation.composite old ∈ S.types :=
      fun hfind => List.mem_of_find?_eq_some hfind
    cases h with
    | @leaf v hv =>
      cases v with
      | list | map | described => cases hv
      | _ => exact .error rfl
    | list | map => exact .error rfl
    | unlisted hfind hfind' hbody => exact alike_reads_unlisted hcustoms ih hfind hfind' hbody
    | custom hfind hfind' hname hcustom hbody =>
      exact alike_reads_custom hcustoms ih hfind hfind' hname hcustom hbody
    | @restricted _ _ _ type _ hfind hfind' hname hbody =>
      cases hcustom : s.customs.codec? type.name with
      | none => exact alike_reads_restricted ih hfind hfind' hname hcustom hbody
      | some b =>
        have hsome : (s.customs.codec? type.name).isSome := Option.isSome_of_eq_some hcustom
        exact alike_reads_custom hcustoms ih hfind hfind' hname hsome hbody
    | fields hfind hfind' hname hcustom hlength hlength' hitems hperm =>
      have hmem := hlisted hfind
      exact alike_reads_fields hevolution ih hfind hfind' hname hcustom
        (fun hlive => hreparses _ hmem hlive) (hdistinct _ hmem) hlength hlength' hitems hperm
    | misfit hfind hfind' hname hcustom hconcrete hperm hbody hbody' =>
      have hmem := hlisted hfind
      exact alike_reads_misfit hevolution hfind hfind' hname hcustom
        (fun hlive => hreparses _ hmem hlive) (fun hshape => hconcrete _ hshape)
        (hdistinct _ hmem) hperm hbody hbody'

end Setting

end SelfDescribing
