import SelfDescribing.Factory.Payload
import SelfDescribing.Proofs.Codec.Exchange

namespace SelfDescribing

open Steps

/-!
# Codecs that are built stay

What a step that may build codecs does to the caches, whatever else it does and however it ends.

* `Setting.Extends` — the codecs that were there are still there, and new ones were built from the
  registered shapes.
* `Setting.Fills` — whatever is done, one codec after another is built, and nothing else happens to
  the caches.
* `Setting.Notes` — while a payload is written, the notations that were there stay as well.
* `Factory.Builds` — a factory whose setting stays and whose caches are extended.

`Fills` is the strongest of these.  It is shown for each step, and the others follow from it and
from what a single build does, by induction on the builds.  Proofs that keep an invariant of the
caches need only look at a single build.
-/

variable {ω : Type}

namespace Setting

/-- From `c` to `c'` codecs were only added, and these were built in the setting. -/
structure Extends (s : Setting ω) (c c' : Caches ω) : Prop where
  live_stays : ∀ {name x}, c.live.find? name = some x → c'.live.find? name = some x
  evolution_stays : ∀ {key x}, c.evolution.find? key = some x → c'.evolution.find? key = some x
  live_new : ∀ {name x}, c'.live.find? name = some x → c.live.find? name = some x ∨
    ∃ shape, s.registry.shape? name = some shape ∧ ObjectCodec.build shape s.registry = .ok x
  evolution_new : ∀ {key x}, c'.evolution.find? key = some x → c.evolution.find? key = some x ∨
    ∃ old live, evolutionKey old = key ∧ c'.live.find? old.name = some live ∧
      EvolutionCodec.make old live s.registry = .ok x

variable {s : Setting ω} {c c' : Caches ω}

instance (s : Setting ω) : IsPreorder (Caches ω) s.Extends where
  refl _ := ⟨id, id, .inl, .inl⟩
  trans c₁ c₂ c₃ h₁ h₂ := by
    refine ⟨fun h => h₂.live_stays (h₁.live_stays h),
      fun h => h₂.evolution_stays (h₁.evolution_stays h), fun h => ?_, fun h => ?_⟩
    · exact (h₂.live_new h).elim h₁.live_new .inr
    · obtain h | h := h₂.evolution_new h
      · obtain h | ⟨old, live, hkey, hlive, hmake⟩ := h₁.evolution_new h
        · exact .inl h
        · exact .inr ⟨old, live, hkey, h₂.live_stays hlive, hmake⟩
      · exact .inr h

/-- A default codec is put where none was, so that nothing is lost. -/
theorem extends_insert_live {name : String} {shape : TypeShape ω} {x : ObjectCodec ω}
    (hfree : c.live.find? name = none) (hshape : s.registry.shape? name = some shape)
    (hbuild : ObjectCodec.build shape s.registry = .ok x) :
    s.Extends c { c with live := c.live.insert name x } := by
  refine ⟨fun {name' x'} h => ?_, id, fun {name' x'} h => ?_, .inl⟩
  · have hne : name ≠ name' := by
      rintro rfl
      rw [hfree] at h
      cases h
    rwa [Table.find?_insert, if_neg hne]
  · rw [Table.find?_insert] at h
    split at h
    · rename_i he
      cases he
      cases h
      exact .inr ⟨shape, hshape, hbuild⟩
    · exact .inl h

/-- An evolution codec is put where none was.  The live codec that it was made for is in the cache
already. -/
theorem extends_insert_evolution {old : CompositeType} {live : ObjectCodec ω}
    {x : EvolutionCodec ω} (hfree : c.evolution.find? (evolutionKey old) = none)
    (hlive : c.live.find? old.name = some live)
    (hmake : EvolutionCodec.make old live s.registry = .ok x) :
    s.Extends c { c with evolution := c.evolution.insert (evolutionKey old) x } := by
  refine ⟨id, fun {key x'} h => ?_, .inl, fun {key x'} h => ?_⟩
  · have hne : evolutionKey old ≠ key := by
      rintro rfl
      rw [hfree] at h
      cases h
    rwa [Table.find?_insert, if_neg hne]
  · rw [Table.find?_insert] at h
    split at h
    · rename_i he
      cases h
      exact .inr ⟨old, live, he, hlive, hmake⟩
    · exact .inl h

/-! ### The two caches -/

/-- The default codec of a name is the one that is there, or one built from its shape. -/
theorem liveCodec_cases (s : Setting ω) (name : String) (c : Caches ω) :
    (∃ x, c.live.find? name = some x ∧ s.liveCodec name c = .ok x c) ∨
    (∃ shape x, c.live.find? name = none ∧ s.registry.shape? name = some shape ∧
      ObjectCodec.build shape s.registry = .ok x ∧
      s.liveCodec name c = .ok x { c with live := c.live.insert name x }) ∨
    (c.live.find? name = none ∧ ∃ e, s.liveCodec name c = .error e c ∧
      ((s.registry.shape? name = none ∧ e = .typeNotFound name) ∨
        ∃ shape, s.registry.shape? name = some shape ∧
          ObjectCodec.build shape s.registry = .error e)) := by
  rw [liveCodec, get_bind_apply]
  cases hcached : c.live.find? name with
  | some x => exact .inl ⟨x, rfl, rfl⟩
  | none =>
    refine .inr ?_
    cases hshape : s.registry.shape? name with
    | none => exact .inr ⟨rfl, _, rfl, .inl ⟨rfl, rfl⟩⟩
    | some shape =>
      cases hbuild : ObjectCodec.build shape s.registry with
      | error e => exact .inr ⟨rfl, e, by simp only [hbuild]; rfl, .inr ⟨shape, rfl, hbuild⟩⟩
      | ok x => exact .inl ⟨shape, x, rfl, rfl, hbuild, by simp only [hbuild]; rfl⟩

/-- A default codec that is there is given out, and nothing is built. -/
theorem liveCodec_of_find? {name : String} {x : ObjectCodec ω} (h : c.live.find? name = some x) :
    s.liveCodec name c = .ok x c := by
  rw [liveCodec, get_bind_apply, h]
  rfl

/-- A default codec that is not there is built from the shape and kept. -/
theorem liveCodec_of_shape {name : String} {shape : TypeShape ω} {x : ObjectCodec ω}
    (hfree : c.live.find? name = none) (hshape : s.registry.shape? name = some shape)
    (hbuild : ObjectCodec.build shape s.registry = .ok x) :
    s.liveCodec name c = .ok x { c with live := c.live.insert name x } := by
  rw [liveCodec, get_bind_apply, hfree, hshape]
  simp only [hbuild]
  rfl

/-- Asking for a default codec loses no codec, also when none can be built. -/
theorem moves_liveCodec (s : Setting ω) (name : String) : Moves s.Extends (s.liveCodec name) := by
  refine ⟨fun c => ?_⟩
  obtain ⟨x, -, h⟩ | ⟨shape, x, hfree, hshape, hbuild, h⟩ | ⟨-, e, h, -⟩ := s.liveCodec_cases name c
  · rw [h]
    exact refl c
  · rw [h]
    exact extends_insert_live hfree hshape hbuild
  · rw [h]
    exact refl c

/-- A default codec is in the cache once it was asked for. -/
theorem find?_of_liveCodec {name : String} {x : ObjectCodec ω}
    (h : s.liveCodec name c = .ok x c') : c'.live.find? name = some x := by
  obtain ⟨y, hy, he⟩ | ⟨shape, y, -, -, -, he⟩ | ⟨-, e, he, -⟩ := s.liveCodec_cases name c
  · cases he.symm.trans h
    exact hy
  · cases he.symm.trans h
    rw [Table.find?_insert, if_pos rfl]
  · cases he.symm.trans h

/-- Asking for a default codec does not touch the codecs of older shapes. -/
theorem evolution_of_liveCodec (s : Setting ω) (name : String) (c : Caches ω) :
    (final (s.liveCodec name c)).evolution = c.evolution := by
  obtain ⟨x, -, h⟩ | ⟨shape, x, -, -, -, h⟩ | ⟨-, e, h, -⟩ := s.liveCodec_cases name c
  all_goals
    rw [h]
    rfl

/-- The codec of an older shape is the one that is there, or one made with the live codec. -/
theorem evolutionCodec_cases (s : Setting ω) (old : CompositeType) (c : Caches ω) :
    (∃ x, c.evolution.find? (evolutionKey old) = some x ∧ s.evolutionCodec old c = .ok x c) ∨
    (c.evolution.find? (evolutionKey old) = none ∧
      ((∃ e c₁, s.liveCodec old.name c = .error e c₁ ∧ s.evolutionCodec old c = .error e c₁) ∨
        ∃ live c₁, s.liveCodec old.name c = .ok live c₁ ∧
          ((∃ e, EvolutionCodec.make old live s.registry = .error e ∧
              s.evolutionCodec old c = .error e c₁) ∨
            ∃ x, EvolutionCodec.make old live s.registry = .ok x ∧
              s.evolutionCodec old c =
                .ok x { c₁ with evolution := c₁.evolution.insert (evolutionKey old) x }))) := by
  rw [evolutionCodec, get_bind_apply]
  cases hcached : c.evolution.find? (evolutionKey old) with
  | some x => exact .inl ⟨x, rfl, rfl⟩
  | none =>
    -- The live codec is asked for first, and stays even if nothing can be made of it.
    refine .inr ⟨rfl, ?_⟩
    cases hlive : s.liveCodec old.name c with
    | error e c₁ => exact .inl ⟨e, c₁, rfl, bind_error hlive _⟩
    | ok live c₁ =>
      refine .inr ⟨live, c₁, rfl, ?_⟩
      simp only [bind_ok hlive]
      cases hmake : EvolutionCodec.make old live s.registry with
      | error e => exact .inl ⟨e, rfl, rfl⟩
      | ok x => exact .inr ⟨x, rfl, rfl⟩

/-- A codec of an older shape that is not there is made with the live codec and kept. -/
theorem evolutionCodec_of_make {old : CompositeType} {live : ObjectCodec ω} {x : EvolutionCodec ω}
    (hfree : c.evolution.find? (evolutionKey old) = none)
    (hlive : s.liveCodec old.name c = .ok live c')
    (hmake : EvolutionCodec.make old live s.registry = .ok x) :
    s.evolutionCodec old c =
      .ok x { c' with evolution := c'.evolution.insert (evolutionKey old) x } := by
  rw [evolutionCodec, get_bind_apply, hfree]
  simp only [bind_ok hlive, hmake]
  rfl

/-- Asking for the codec of an older shape asks for the live one first, and loses none of either
kind. -/
theorem moves_evolutionCodec (s : Setting ω) (old : CompositeType) :
    Moves s.Extends (s.evolutionCodec old) := by
  refine ⟨fun c => ?_⟩
  have hlive := (s.moves_liveCodec old.name).to_final c
  obtain ⟨x, -, h⟩ | ⟨hfree, ⟨e, c₁, hfound, h⟩ | ⟨live, c₁, hfound, ⟨e, -, h⟩ | ⟨x, hmake, h⟩⟩⟩ :=
    s.evolutionCodec_cases old c
  · rw [h]
    exact refl c
  · rw [hfound] at hlive
    rw [h]
    exact hlive
  · rw [hfound] at hlive
    rw [h]
    exact hlive
  · have hsame := s.evolution_of_liveCodec old.name c
    rw [hfound] at hlive hsame
    rw [h]
    refine trans_of s.Extends hlive (extends_insert_evolution ?_ (find?_of_liveCodec hfound) hmake)
    rw [hsame]
    exact hfree

/-! ### Sequences of builds -/

/-- A codec to build. -/
inductive Build where
  | live (name : String)
  | old (old : CompositeType)

/-- The caches after a build, successful or not. -/
def built (s : Setting ω) (c : Caches ω) : Build → Caches ω
  | .live name => final (s.liveCodec name c)
  | .old old => final (s.evolutionCodec old c)

/-- From `c` to `c'` codecs were built one after another, and nothing else happened. -/
def Fills (s : Setting ω) (c c' : Caches ω) : Prop :=
  ∃ builds : List Build, builds.foldl s.built c = c'

instance (s : Setting ω) : IsPreorder (Caches ω) s.Fills where
  refl _ := ⟨[], rfl⟩
  trans := by
    rintro c₁ c₂ c₃ ⟨builds₁, rfl⟩ ⟨builds₂, rfl⟩
    exact ⟨builds₁ ++ builds₂, List.foldl_append⟩

/-- What every single build keeps, all that are carried out keep. -/
theorem Fills.keeps {P : Caches ω → Prop} (h : s.Fills c c')
    (hbuilt : ∀ c build, P c → P (s.built c build)) (hc : P c) : P c' := by
  obtain ⟨builds, rfl⟩ := h
  induction builds generalizing c with
  | nil => exact hc
  | cons build builds ih => exact ih (hbuilt c build hc)

/-- By induction on the builds: codecs that are built one after another stay. -/
theorem Fills.extends (h : s.Fills c c') : s.Extends c c' := by
  refine h.keeps (fun c₁ build h₁ => trans_of s.Extends h₁ ?_) (refl c)
  cases build with
  | live name => exact (s.moves_liveCodec name).to_final c₁
  | old old => exact (s.moves_evolutionCodec old).to_final c₁

/-- Asking for a default codec is one build. -/
theorem fills_liveCodec (s : Setting ω) (name : String) : Moves s.Fills (s.liveCodec name) :=
  ⟨fun _ => ⟨[.live name], rfl⟩⟩

/-- Asking for the codec of an older shape is one build as well. -/
theorem fills_evolutionCodec (s : Setting ω) (old : CompositeType) :
    Moves s.Fills (s.evolutionCodec old) :=
  ⟨fun _ => ⟨[.old old], rfl⟩⟩

/-! ### Choosing codecs -/

/-- A host type is found in the tables or not, and then at most one default codec is built. -/
theorem fills_codecForHost (s : Setting ω) (t : HostType) :
    Moves s.Fills (s.codecForHost t) := by
  unfold codecForHost
  split
  · exact .pure _
  · split
    · exact .throw _
    · exact (s.fills_liveCodec _).bind fun _ => .pure _

/-- No codec is lost in finding one for a host type. -/
theorem moves_codecForHost (s : Setting ω) (t : HostType) :
    Moves s.Extends (s.codecForHost t) :=
  (s.fills_codecForHost t).imp Fills.extends

/-- A custom codec needs no build, and any other name at most one. -/
theorem fills_codecForName (s : Setting ω) (name : String) :
    Moves s.Fills (s.codecForName name) := by
  unfold codecForName
  split
  · exact .pure _
  · exact (s.fills_liveCodec _).bind fun _ => .pure _

variable [LiveObject ω]

/-- One case for each way of choosing a reader: it builds a default codec, a codec of an older
shape, or nothing. -/
theorem fills_readerFor (s : Setting ω) (schema : Schema) (descriptor : Value ω) :
    Moves s.Fills (s.readerFor schema descriptor) := by
  unfold readerFor
  split
  · split
    · exact .pure _
    · exact .throw _
  · split
    · exact .pure _
    · refine (s.fills_liveCodec _).bind fun live => ?_
      split
      · exact .pure _
      · split
        · exact .throw _
        · split
          · exact (Moves.throw _).bind fun _ =>
              (s.fills_evolutionCodec _).bind fun _ => .pure _
          · exact (s.fills_evolutionCodec _).bind fun _ => .pure _

/-- No codec is lost in choosing a reader. -/
theorem moves_readerFor (s : Setting ω) (schema : Schema) (descriptor : Value ω) :
    Moves s.Extends (s.readerFor schema descriptor) :=
  (s.fills_readerFor schema descriptor).imp Fills.extends

/-- An evolution codec that is kept reads whatever old shape has its key. -/
theorem readerFor_kept {schema : Schema} {descriptor : Value ω} {old : CompositeType}
    {live : ObjectCodec ω} {x : EvolutionCodec ω} (hevolution : s.config.evolution = true)
    (hfind : schema.findByDescriptor? descriptor = some (.composite old))
    (hcustom : s.customs.codec? old.name = none) (hlive : c.live.find? old.name = some live)
    (hother : live.composite.descriptor.admits descriptor = false)
    (hkept : c.evolution.find? (evolutionKey old) = some x) :
    s.readerFor schema descriptor c = .ok (.evolution x) c := by
  have hcustom' : s.customs.codec? (TypeNotation.composite old).name = none := hcustom
  have hlive' : s.liveCodec (TypeNotation.composite old).name c = .ok live c :=
    liveCodec_of_find? hlive
  have hold : s.evolutionCodec old c = .ok x c := by
    rw [evolutionCodec, get_bind_apply, hkept]
    rfl
  rw [readerFor, hfind]
  simp only [hcustom', hevolution, Bool.not_true, Bool.false_eq_true, if_false]
  rw [bind_ok hlive', hother, Bool.false_and, if_neg Bool.false_ne_true]
  show (s.evolutionCodec old >>= _) c = _
  rw [bind_ok hold]
  rfl

/-! ### Reading -/

/-- By induction on the room: reading chooses a reader, and then serves what the codec asks for, one
request after another. -/
theorem fills_readWithin (s : Setting ω) (schema : Schema) (room : Nat) (v : Value ω) :
    Moves s.Fills (s.readWithin schema room v) := by
  induction room generalizing v with
  | zero => cases v <;> exact .throw _
  | succ room ih =>
    cases v with
    | described descriptor body =>
      exact (s.fills_readerFor schema descriptor).bind fun codec => Exchange.moves_run ih _
    | _ => exact .throw _

/-- No codec is lost in reading. -/
theorem moves_readWithin (s : Setting ω) (schema : Schema) (room : Nat) (v : Value ω) :
    Moves s.Extends (s.readWithin schema room v) :=
  (s.fills_readWithin schema room v).imp Fills.extends

/-- Exchanges about values do to the caches what reading the values does. -/
theorem fills_reading {α : Type} (s : Setting ω) (schema : Schema) (x : Reading ω α) :
    Moves s.Fills (s.reading schema x) :=
  Exchange.moves_run (s.fills_readWithin schema _) x

/-! ### Writing -/

/-- From `c` to `c'` codecs were built one after another, and notations were only added. -/
structure Records (s : Setting ω) (c c' : WriteContext ω) : Prop where
  caches : s.Fills c.caches c'.caches
  types : c.types <+: c'.types

omit [LiveObject ω] in
instance (s : Setting ω) : IsPreorder (WriteContext ω) s.Records where
  refl c := ⟨refl c.caches, List.prefix_refl _⟩
  trans _ _ _ h₁ h₂ := ⟨trans_of s.Fills h₁.caches h₂.caches, h₁.types.trans h₂.types⟩

/-- From `c` to `c'` codecs and notations were only added. -/
structure Notes (s : Setting ω) (c c' : WriteContext ω) : Prop where
  caches : s.Extends c.caches c'.caches
  types : c.types <+: c'.types

omit [LiveObject ω] in
/-- What was built one after another stays. -/
theorem Records.notes {s : Setting ω} {c c' : WriteContext ω} (h : s.Records c c') :
    s.Notes c c' :=
  ⟨h.caches.extends, h.types⟩

omit [LiveObject ω] in
instance (s : Setting ω) : IsPreorder (WriteContext ω) s.Notes where
  refl c := ⟨refl c.caches, List.prefix_refl _⟩
  trans _ _ _ h₁ h₂ := ⟨trans_of s.Extends h₁.caches h₂.caches, h₁.types.trans h₂.types⟩

omit [LiveObject ω] in
/-- A step that builds codecs leaves the notations alone. -/
theorem records_building {s : Setting ω} {α : Type} {step : Building ω α}
    (h : Moves s.Fills step) : Moves s.Records (WriteContext.building step) := by
  refine ⟨fun c => ?_⟩
  have hstep := h.to_final c.caches
  unfold WriteContext.building
  cases hc : step c.caches with
  | ok a caches =>
    rw [hc] at hstep
    exact ⟨hstep, List.prefix_refl _⟩
  | error e caches =>
    rw [hc] at hstep
    exact ⟨hstep, List.prefix_refl _⟩

omit [LiveObject ω] in
/-- Noting a type leaves the codecs alone. -/
theorem records_note (s : Setting ω) (type : TypeNotation) :
    Moves s.Records (WriteContext.note type) := by
  refine ⟨fun c => ?_⟩
  show s.Records c (if _ then c else { c with types := c.types ++ [type] })
  split
  · exact refl c
  · exact ⟨refl c.caches, List.prefix_append _ _⟩

/-- Choosing a writer builds at most one codec and notes its type. -/
theorem records_writerFor (s : Setting ω) (q : WriteRequest ω) :
    Moves s.Records (s.writerFor q) := by
  refine (records_building (s.fills_codecForHost _)).bind fun codec => ?_
  split
  · exact .pure _
  · split
    · exact .pure _
    · exact .throw _

/-- By induction on the room: writing chooses a writer, and then serves what the codec asks for, one
request after another. -/
theorem records_writeWithin (s : Setting ω) (room : Nat) (q : WriteRequest ω) :
    Moves s.Records (s.writeWithin room q) := by
  induction room generalizing q with
  | zero => exact (s.records_writerFor q).bind fun _ => .throw _
  | succ room ih =>
    exact (s.records_writerFor q).bind fun codec => (s.records_note codec.type).bind fun _ =>
      Exchange.moves_run ih _

/-- No codec and no notation is lost in writing. -/
theorem moves_writeWithin (s : Setting ω) (room : Nat) (q : WriteRequest ω) :
    Moves s.Notes (s.writeWithin room q) :=
  (s.records_writeWithin room q).imp Records.notes

/-- Exchanges about objects do to the caches and notations what writing the objects does. -/
theorem records_writing {α : Type} (s : Setting ω) (x : Writing ω α) :
    Moves s.Records (s.writing x) :=
  Exchange.moves_run (s.records_writeWithin _) x

end Setting

namespace Factory

/-- From `f` to `f'` the setting stayed and codecs were only added. -/
structure Builds (f f' : Factory ω) : Prop where
  setting : f'.toSetting = f.toSetting
  caches : f.toSetting.Extends f.caches f'.caches

instance : IsPreorder (Factory ω) Builds where
  refl f := ⟨rfl, refl f.caches⟩
  trans f₁ f₂ f₃ h₁ h₂ := by
    refine ⟨h₂.setting.trans h₁.setting, trans_of f₁.toSetting.Extends h₁.caches ?_⟩
    rw [← h₁.setting]
    exact h₂.caches

/-- From `f` to `f'` the setting stayed and codecs were built, and nothing else happened. -/
structure Fills (f f' : Factory ω) : Prop where
  setting : f'.toSetting = f.toSetting
  caches : f.toSetting.Fills f.caches f'.caches

/-- A factory that builds codecs one after another loses none. -/
theorem Fills.builds {f f' : Factory ω} (h : Fills f f') : Builds f f' :=
  ⟨h.setting, h.caches.extends⟩

instance : IsPreorder (Factory ω) Fills where
  refl f := ⟨rfl, refl f.caches⟩
  trans f₁ f₂ f₃ h₁ h₂ := by
    refine ⟨h₂.setting.trans h₁.setting, trans_of f₁.toSetting.Fills h₁.caches ?_⟩
    rw [← h₁.setting]
    exact h₂.caches

/-- A step of the caches changes nothing else of a factory. -/
theorem final_building {α : Type} (step : Setting ω → Setting.Building ω α) (f : Factory ω) :
    final (building step f) = { f with caches := final (step f.toSetting f.caches) } := by
  unfold building
  cases step f.toSetting f.caches <;> rfl

/-- The outcome of a step of the caches is the outcome for the factory. -/
theorem outcome_building {α : Type} (step : Setting ω → Setting.Building ω α) (f : Factory ω) :
    outcome (building step f) = outcome (step f.toSetting f.caches) := by
  unfold building
  cases step f.toSetting f.caches <;> rfl

/-- A step that fills the caches in every setting fills those of the factory. -/
theorem fills_building {α : Type} {step : Setting ω → Setting.Building ω α}
    (h : ∀ s, Moves s.Fills (step s)) : Moves Fills (building step) := by
  refine ⟨fun f => ?_⟩
  rw [final_building]
  exact ⟨rfl, (h f.toSetting).to_final f.caches⟩

/-- A look at a factory succeeds with what is seen, and changes nothing. -/
theorem inspecting_eq_ok {α : Type} {look : Factory ω → Except Error α} {f f' : Factory ω} {a : α} :
    inspecting look f = .ok a f' ↔ look f = .ok a ∧ f' = f := by
  unfold inspecting
  cases look f with
  | ok b =>
    constructor
    · intro h
      cases h
      exact ⟨rfl, rfl⟩
    · rintro ⟨h, rfl⟩
      cases h
      rfl
  | error e =>
    constructor
    · intro h
      cases h
    · intro h
      cases h.1

/-- The outcome of a look is what is seen. -/
theorem outcome_inspecting {α : Type} (look : Factory ω → Except Error α) (f : Factory ω) :
    outcome (inspecting look f) = look f := by
  unfold inspecting
  cases look f <;> rfl

/-- The factory is as before, whatever is seen. -/
theorem final_inspecting {α : Type} (look : Factory ω → Except Error α) (f : Factory ω) :
    final (inspecting look f) = f := by
  unfold inspecting
  cases look f <;> rfl

/-- A look builds nothing. -/
theorem fills_inspecting {α : Type} (look : Factory ω → Except Error α) :
    Moves Fills (inspecting look) := by
  refine ⟨fun f => ?_⟩
  rw [final_inspecting]
  exact refl f

variable [LiveObject ω]

/-- Exchanges about objects build codecs and do nothing else to a factory. -/
theorem fills_writing {α : Type} (x : Writing ω α) : Moves Fills (writing x) := by
  refine ⟨fun f => ?_⟩
  have hstep := (f.toSetting.records_writing x).to_final ⟨f.caches, []⟩
  unfold writing
  cases hf : f.toSetting.writing x ⟨f.caches, []⟩ with
  | ok a c =>
    rw [hf] at hstep
    exact ⟨rfl, hstep.caches⟩
  | error e c =>
    rw [hf] at hstep
    exact ⟨rfl, hstep.caches⟩

/-- Exchanges about values build codecs and do nothing else to a factory. -/
theorem fills_reading {α : Type} (schema : Schema) (x : Reading ω α) :
    Moves Fills (reading schema x) :=
  fills_building fun s => s.fills_reading schema x

/-- Encoding builds codecs, and what is checked before and after builds none. -/
theorem fills_encode (object : ω) : Moves Fills (encode object) :=
  (fills_writing _).bind fun _ => fills_inspecting _

/-- Decoding builds codecs, also where it fails. -/
theorem fills_decode (t : HostType) (bytes : List UInt8) :
    Moves Fills (decode (ω := ω) t bytes) := by
  refine (fills_inspecting (openPayload t bytes)).bind fun envelope => ?_
  refine (fills_reading envelope.schema (readObject envelope.body)).bind fun object => ?_
  exact fills_inspecting _

omit [LiveObject ω] in
/-- The type at the root is the one that the schema tells for its descriptor. -/
theorem rootType_of_find {schema : Schema} {descriptor body : Value ω} {type : TypeNotation}
    (hfind : schema.findByDescriptor? descriptor = some type) :
    rootType ⟨.described descriptor body, schema⟩ = .ok type.name := by
  simp only [rootType, hfind]

/-- The objects of a host type are those that are taken for it. -/
theorem downcast_ofHost_eq_ok_iff {t : HostType} {object object' : ω} :
    Value.downcast (.ofHost t) object = .ok object' ↔
      object' = object ∧ LiveObject.hostType object = t := by
  unfold Value.downcast HostView.ofHost
  dsimp only
  by_cases hhost : LiveObject.hostType object = t
  · rw [if_pos hhost]
    constructor
    · intro h
      exact ⟨(Except.ok.inj h).symm, hhost⟩
    · rintro ⟨rfl, -⟩
      rfl
  · rw [if_neg hhost]
    constructor
    · intro h
      cases h
    · rintro ⟨-, h⟩
      exact absurd h hhost

/-! ### Decoding, step by step -/

variable {f : Factory ω} {t : HostType} {bytes : List UInt8} {e : Envelope ω}

omit [LiveObject ω] in
/-- A look that fails changes nothing either. -/
theorem inspecting_error {α : Type} {look : Factory ω → Except Error α} {err : Error}
    (h : look f = .error err) : inspecting look f = .error err f := by
  rw [inspecting, h]

/-- A payload that parses is opened if its root has the type that is asked for. -/
theorem openPayload_of_parse (hparse : Envelope.parse bytes f.config.maxDepth = .ok e) :
    openPayload t bytes f = f.nameOfHost t >>= fun expected => rootType e >>= fun found =>
      if found ≠ expected then .error (.typeMismatch expected found) else .ok e := by
  rw [openPayload, hparse]
  cases f.nameOfHost t with
  | error err => rfl
  | ok expected =>
    cases hroot : rootType e with
    | error err =>
      show (rootType e >>= _) = _
      rw [hroot]
      rfl
    | ok found =>
      show (rootType e >>= _) = _
      rw [hroot]
      show (if found ≠ expected then _ else _) = if found ≠ expected then _ else _
      split <;> rfl

/-- Decoding is opening the payload, reading its body, and taking the object for the host type. -/
theorem outcome_decode_eq (t : HostType) (bytes : List UInt8) (f : Factory ω) :
    outcome (decode t bytes f) = openPayload t bytes f >>= fun e =>
      outcome (f.toSetting.readWithin e.schema f.config.maxDepth e.body f.caches) >>=
        Value.downcast (.ofHost t) := by
  cases hopen : openPayload t bytes f with
  | error err =>
    rw [decode, bind_error (inspecting_error hopen)]
    rfl
  | ok e =>
    have hreading : outcome (reading e.schema (readObject e.body) f) =
        outcome (f.toSetting.readWithin e.schema f.config.maxDepth e.body f.caches) := by
      rw [reading, outcome_building, Setting.reading, readObject, Exchange.run_request]
    show _ = outcome (f.toSetting.readWithin e.schema f.config.maxDepth e.body f.caches) >>= _
    rw [decode, bind_ok (inspecting_eq_ok.2 ⟨hopen, rfl⟩), ← hreading]
    cases h : reading e.schema (readObject e.body) f with
    | error err g => rw [bind_error h]; rfl
    | ok object g =>
      rw [bind_ok h]
      exact outcome_inspecting _ g

/-- What is decoded from a payload that is opened is what is read of its root. -/
theorem outcome_decode_of_open (hopen : openPayload t bytes f = .ok e) :
    outcome (decode t bytes f) = outcome (f.toSetting.readWithin e.schema f.config.maxDepth e.body
      f.caches) >>= Value.downcast (.ofHost t) := by
  rw [outcome_decode_eq, hopen]
  rfl

/-- What decoding builds, reading the body builds. -/
theorem caches_decode (t : HostType) (bytes : List UInt8) (f : Factory ω) :
    (final (decode t bytes f)).caches = match openPayload t bytes f with
      | .ok e => final (f.toSetting.readWithin e.schema f.config.maxDepth e.body f.caches)
      | .error _ => f.caches := by
  cases hopen : openPayload t bytes f with
  | error err =>
    rw [decode, bind_error (inspecting_error hopen)]
    rfl
  | ok e =>
    have hreading : (final (reading e.schema (readObject e.body) f)).caches =
        final (f.toSetting.readWithin e.schema f.config.maxDepth e.body f.caches) := by
      rw [reading, final_building, Setting.reading, readObject, Exchange.run_request]
    rw [decode, bind_ok (inspecting_eq_ok.2 ⟨hopen, rfl⟩)]
    dsimp only
    rw [← hreading]
    cases h : reading e.schema (readObject e.body) f with
    | error err g => rw [bind_error h]
    | ok object g =>
      rw [bind_ok h, final_inspecting]
      rfl

/-- An object that is read of a root of the expected type is decoded. -/
theorem decode_of_outcome {object : ω} {name : String}
    (hname : f.nameOfHost (LiveObject.hostType object) = .ok name)
    (hparse : Envelope.parse bytes f.config.maxDepth = .ok e) (hroot : rootType e = .ok name)
    (hread : outcome (f.toSetting.readWithin e.schema f.config.maxDepth e.body f.caches) =
      .ok object) :
    ∃ f', decode (LiveObject.hostType object) bytes f = .ok object f' := by
  have hopen : openPayload (LiveObject.hostType object) bytes f = .ok e := by
    rw [openPayload_of_parse hparse, hname, hroot]
    exact if_neg (not_not_intro rfl)
  have hdecode := outcome_decode_of_open hopen
  rw [hread] at hdecode
  exact ⟨_, eq_ok_of_outcome (hdecode.trans (downcast_ofHost_eq_ok_iff.2 ⟨rfl, rfl⟩))⟩

end Factory

end SelfDescribing
