import SelfDescribing.Proofs.Factory.Building
import SelfDescribing.Proofs.Registry.Registering

namespace SelfDescribing

open Steps

/-!
# Factories that can come up

* `Registry.Coherent`, `CustomCodecs.Coherent`, `Factory.Coherent` — the parts of a factory agree
  with each other: what is found under a name has this name, and host types lead to their own
  types.
* `Operation` — what can be done with a factory.
* `Factory.Reachable` — the factories that come up from new ones by operations, failed ones
  included; they are coherent.
* `Factory.Reachable.registerCustom`, `Factory.Reachable.liveCodec` — what comes up by an operation
  that succeeds.

Much that one would say of a factory is false of some record of tables that no program can produce.
`Reachable` leaves only what operations produce, and `Coherent` is the invariant that proofs use
instead of it: one lemma for each operation, and one induction over all of them.
-/

variable {ω : Type}

/-! ### Registries -/

namespace Registry

/-- Shapes are stored under their names, and a host type has the name of its shape. -/
structure Coherent (r : Registry ω) : Prop where
  name_eq : ∀ {name shape}, r.shape? name = some shape → shape.name = name
  shape_of_host : ∀ {t name}, r.nameOf? t = some name →
    ∃ shape, r.shape? name = some shape ∧ shape.hostType? = some t

/-- The empty registry is coherent. -/
theorem coherent_empty : (empty : Registry ω).Coherent where
  name_eq h := nomatch h
  shape_of_host h := nomatch h

/-- Allowing a name touches neither table. -/
theorem Coherent.allow {r : Registry ω} (h : r.Coherent) (name : String) :
    (r.allow name).Coherent := by
  unfold Registry.allow
  split
  · exact h
  · exact ⟨h.name_eq, h.shape_of_host⟩

/-- By induction on the names: allowing several keeps a registry coherent. -/
theorem Coherent.allowAll {r : Registry ω} (h : r.Coherent) (names : List String) :
    (names.foldl Registry.allow r).Coherent := by
  induction names generalizing r with
  | nil => exact h
  | cons name names ih => exact ih (h.allow name)

variable {r r' : Registry ω} {shape : TypeShape ω}

/-- A registered shape is found under its name, and the others as before. -/
theorem shape?_register (h : r.register shape = .ok () r') (name : String) :
    r'.shape? name = if shape.name = name then some shape else r.shape? name := by
  obtain ⟨-, -, rfl⟩ := register_eq_ok_iff.1 h
  exact shape?_store r shape name

/-- A registered shape is new, or replaces one of its name and host type, so that host types still
lead to shapes of their own. -/
theorem Coherent.register (hr : r.Coherent) (h : r.register shape = .ok () r') :
    r'.Coherent := by
  obtain ⟨-, hfree, rfl⟩ := register_eq_ok_iff.1 h
  -- The new shape stands under its own name, and other names are left alone.
  constructor
  · intro name found hfound
    rw [shape?_store] at hfound
    split at hfound
    · cases hfound
      assumption
    · exact hr.name_eq hfound
  · intro t name hfound
    rw [nameOf?_store] at hfound
    rw [shape?_store]
    split at hfound
    · rename_i hhost
      cases hfound
      exact ⟨shape, if_pos rfl, hhost⟩
    · obtain ⟨old, hshape, hhost⟩ := hr.shape_of_host hfound
      by_cases he : shape.name = name
      · -- The replaced shape has the same host type.
        refine ⟨shape, if_pos he, ?_⟩
        by_contra hother
        exact hfree (.inl ⟨old, he ▸ hshape, fun hsame => hother (hsame ▸ hhost)⟩)
      · exact ⟨old, by rw [if_neg he, hshape], hhost⟩

/-- Registering a shape leaves the names of host types as they are. -/
theorem nameOf?_register {t : HostType} {name : String} (h : r.register shape = .ok () r')
    (hname : r.nameOf? t = some name) : r'.nameOf? t = some name := by
  obtain ⟨-, hfree, rfl⟩ := register_eq_ok_iff.1 h
  rw [nameOf?_store]
  split
  · -- A host type with another name would have been refused.
    rename_i hhost
    by_contra hother
    exact hfree (.inr ⟨t, name, hhost, hname, fun he => hother (congrArg some he.symm)⟩)
  · exact hname

end Registry

/-! ### Custom codecs -/

namespace CustomCodecs

/-- Custom codecs are stored under their names, and their host types lead to them. -/
structure Coherent (c : CustomCodecs ω) : Prop where
  typeName_eq : ∀ {name b}, c.codec? name = some b → b.typeName = name
  type_name_eq : ∀ {name b}, c.codec? name = some b → b.type.name = name
  name_of_host : ∀ {name b}, c.codec? name = some b →
    c.hostNames.find? b.codec.hostType = some name

/-- The empty registry of custom codecs is coherent. -/
theorem coherent_empty (order : ScanOrder) : (empty order : CustomCodecs ω).Coherent where
  typeName_eq h := nomatch h
  type_name_eq h := nomatch h
  name_of_host h := nomatch h

/-- What is found by name after a codec was registered. -/
theorem codec?_register (c : CustomCodecs ω) (b : BoundCodec ω) (name : String) :
    (c.register b).codec? name =
      if b.typeName = name then some b
      else if c.replacedName? b = some name then none else c.codec? name := by
  unfold register codec?
  rw [Table.find?_insert]
  congr 1
  cases hreplaced : c.replacedName? b with
  | none => rfl
  | some old =>
    simp only [Table.find?_erase, Option.some.injEq]

/-- A codec that tells its own name is stored under it.  What its host type had before is removed,
so that host types and names agree again. -/
theorem Coherent.register {c : CustomCodecs ω} (hc : c.Coherent) {b : BoundCodec ω}
    (hb : b.type.name = b.typeName) : (c.register b).Coherent := by
  -- What is found is the new codec, or an old one that is not replaced.
  have hcases : ∀ {name found}, (c.register b).codec? name = some found →
      (found = b ∧ b.typeName = name) ∨
        (b.typeName ≠ name ∧ c.replacedName? b ≠ some name ∧ c.codec? name = some found) := by
    intro name found h
    rw [codec?_register] at h
    split at h
    · cases h
      exact .inl ⟨rfl, by assumption⟩
    · split at h
      · cases h
      · exact .inr ⟨by assumption, by assumption, h⟩
  constructor
  · intro name found h
    obtain ⟨rfl, he⟩ | ⟨-, -, h⟩ := hcases h
    · exact he
    · exact hc.typeName_eq h
  · intro name found h
    obtain ⟨rfl, he⟩ | ⟨-, -, h⟩ := hcases h
    · exact hb.trans he
    · exact hc.type_name_eq h
  · intro name found h
    show (c.hostNames.insert b.codec.hostType b.typeName).find? found.codec.hostType = some name
    rw [Table.find?_insert]
    obtain ⟨rfl, he⟩ | ⟨hne, hkept, h⟩ := hcases h
    · rw [if_pos rfl, he]
    · have hhost := hc.name_of_host h
      split
      · -- A codec of the new one's host type would have been replaced.
        rename_i he
        refine absurd ?_ hkept
        rw [replacedName?, he, hhost, Option.filter_some, if_pos]
        exact decide_eq_true (Ne.symm hne)
      · exact hhost

end CustomCodecs

/-- A bound codec has the type name of its description. -/
theorem BoundCodec.bind_eq_ok {codec : CustomCodec ω} {r : Registry ω} {b : BoundCodec ω}
    (h : BoundCodec.bind codec r = .ok b) : b.codec = codec ∧ b.type.name = b.typeName := by
  obtain ⟨type, -, h⟩ := except_bind_eq_ok.1 h
  by_cases hname : type.name = codec.typeName
  · rw [if_neg (by simpa using hname)] at h
    cases h
    exact ⟨rfl, hname⟩
  · rw [if_pos hname] at h
    cases h

/-! ### Caches -/

/-- Every default codec was built from a shape of the name under which it is kept. -/
def Caches.Coherent (c : Caches ω) : Prop :=
  ∀ name x, c.live.find? name = some x →
    ∃ shape r, shape.name = name ∧ ObjectCodec.build shape r = .ok x

/-- Empty caches are coherent. -/
theorem Caches.coherent_empty : (empty : Caches ω).Coherent := fun _ _ h => nomatch h

/-- Codecs that are added were built from shapes of a coherent registry, which have the names they
are kept under. -/
theorem Caches.Coherent.extends {s : Setting ω} {c c' : Caches ω} (hc : c.Coherent)
    (hr : s.registry.Coherent) (h : s.Extends c c') : c'.Coherent := by
  intro name x hx
  obtain hold | ⟨shape, hshape, hbuild⟩ := h.live_new hx
  · exact hc name x hold
  · exact ⟨shape, s.registry, hr.name_eq hshape, hbuild⟩

/-- Forgetting codecs leaves coherent caches. -/
theorem Caches.Coherent.forget {c : Caches ω} (hc : c.Coherent) (names : List String) :
    (Factory.Caches.forget c names).Coherent := by
  intro name x hx
  rw [Factory.Caches.forget, Table.find?_filterKeys] at hx
  split at hx
  · exact hc name x hx
  · cases hx

/-! ### Factories -/

/-- What can be done with a factory. -/
inductive Operation (ω : Type) : Type 1 where
  | register (shape : TypeShape ω)
  | allow (name : String)
  | registerCustom (codec : CustomCodec ω)
  | liveCodec (name : String)
  | evolutionCodec (old : CompositeType)
  | write {α : Type} (x : Writing ω α)
  | read {α : Type} (schema : Schema) (x : Reading ω α)
  | encode (object : ω)
  | decode (t : HostType) (bytes : List UInt8)

namespace Factory

/-- The parts of a factory agree with each other. -/
structure Coherent (f : Factory ω) : Prop where
  registry : f.registry.Coherent
  customs : f.customs.Coherent
  caches : f.caches.Coherent

variable [LiveObject ω]

/-- The factory after an operation, successful or not. -/
def perform (f : Factory ω) : Operation ω → Factory ω
  | .register shape => final (f.register shape)
  | .allow name => { f with registry := f.registry.allow name }
  | .registerCustom codec => final (f.registerCustom codec)
  | .liveCodec name => final (f.liveCodec name)
  | .evolutionCodec old => final (f.evolutionCodec old)
  | .write x => final (f.writing x)
  | .read schema x => final (f.reading schema x)
  | .encode object => final (f.encode object)
  | .decode t bytes => final (f.decode t bytes)

/-- What an operation does to a factory: a shape or a name more in the registry, a custom codec
more, or codecs built one after another. -/
theorem perform_changes (f : Factory ω) (op : Operation ω) :
    Fills f (f.perform op) ∨
    (∃ shape r, op = .register shape ∧ f.registry.register shape = .ok () r ∧
      f.perform op = { f with registry := r }) ∨
    (∃ name, op = .allow name ∧
      f.perform op = { f with registry := f.registry.allow name }) ∨
    ∃ codec b, op = .registerCustom codec ∧ BoundCodec.bind codec f.registry = .ok b ∧
      f.perform op = { f with
        customs := f.customs.register b
        caches := Caches.forget f.caches
          ((f.customs.replacedName? b).toList ++ [b.typeName]) } := by
  cases op with
  | register shape =>
    have hperform : f.perform (.register shape) = final (register shape f) := rfl
    rw [hperform, register, registering]
    cases h : f.registry.register shape with
    | ok _ r => exact .inr (.inl ⟨shape, r, rfl, h, rfl⟩)
    | error e r =>
      cases Registry.eq_of_register_error h
      exact .inl (refl f)
  | allow name => exact .inr (.inr (.inl ⟨name, rfl, rfl⟩))
  | registerCustom codec =>
    have hperform : f.perform (.registerCustom codec) = final (registerCustom codec f) := rfl
    rw [hperform, registerCustom]
    cases h : BoundCodec.bind codec f.registry with
    | ok b => exact .inr (.inr (.inr ⟨codec, b, rfl, h, rfl⟩))
    | error e => exact .inl (refl f)
  -- All other operations build codecs at most.
  | liveCodec name => exact .inl ((fills_building fun s => s.fills_liveCodec name).to_final f)
  | evolutionCodec old =>
    exact .inl ((fills_building fun s => s.fills_evolutionCodec old).to_final f)
  | write x => exact .inl ((fills_writing x).to_final f)
  | read schema x => exact .inl ((fills_reading schema x).to_final f)
  | encode object => exact .inl ((fills_encode object).to_final f)
  | decode t bytes => exact .inl ((fills_decode t bytes).to_final f)

/-- What an operation does to a factory: a shape or a name more in the registry, a custom codec
more, or codecs built in the same setting. -/
theorem perform_cases (f : Factory ω) (op : Operation ω) :
    Builds f (f.perform op) ∨
    (∃ shape r, op = .register shape ∧ f.registry.register shape = .ok () r ∧
      f.perform op = { f with registry := r }) ∨
    (∃ name, op = .allow name ∧
      f.perform op = { f with registry := f.registry.allow name }) ∨
    ∃ codec b, op = .registerCustom codec ∧ BoundCodec.bind codec f.registry = .ok b ∧
      f.perform op = { f with
        customs := f.customs.register b
        caches := Caches.forget f.caches
          ((f.customs.replacedName? b).toList ++ [b.typeName]) } :=
  (f.perform_changes op).imp_left Fills.builds

omit [LiveObject ω] in
/-- A factory that builds codecs stays coherent. -/
theorem Coherent.builds {f f' : Factory ω} (hf : f.Coherent) (h : Builds f f') : f'.Coherent := by
  obtain ⟨hregistry, hcustoms, hcaches⟩ := hf
  obtain ⟨hsetting, hextends⟩ := h
  have hr : f'.registry = f.registry := congrArg Setting.registry hsetting
  have hc : f'.customs = f.customs := congrArg Setting.customs hsetting
  exact ⟨hr ▸ hregistry, hc ▸ hcustoms, hcaches.extends hregistry hextends⟩

/-- One case for each operation: a coherent factory stays so, also where the operation fails. -/
theorem Coherent.perform {f : Factory ω} (hf : f.Coherent) (op : Operation ω) :
    (f.perform op).Coherent := by
  obtain h | ⟨shape, r, -, hr, h⟩ | ⟨name, -, h⟩ | ⟨codec, b, -, hb, h⟩ := f.perform_cases op
  · exact hf.builds h
  · rw [h]
    exact ⟨hf.registry.register hr, hf.customs, hf.caches⟩
  · rw [h]
    exact ⟨hf.registry.allow name, hf.customs, hf.caches⟩
  · rw [h]
    exact ⟨hf.registry, hf.customs.register (BoundCodec.bind_eq_ok hb).2, hf.caches.forget _⟩

end Factory

/-! ### What can come up -/

/-- The registries that come up by registering shapes and allowing names. -/
inductive Registry.Reachable : Registry ω → Prop
  | empty : Reachable .empty
  | register {r r' shape} : Reachable r → r.register shape = .ok () r' → Reachable r'
  | allow {r name} : Reachable r → Reachable (r.allow name)

/-- By induction on the registrations: every registry that comes up is coherent. -/
theorem Registry.Reachable.coherent {r : Registry ω} (h : r.Reachable) : r.Coherent := by
  induction h with
  | empty => exact coherent_empty
  | register _ hr ih => exact ih.register hr
  | allow _ ih => exact ih.allow _

variable [LiveObject ω]

/-- The factories that come up from a registry and a configuration by operations. -/
inductive Factory.Reachable : Factory ω → Prop
  | new {r order} : r.Reachable → Reachable (.new r order)
  | withConfig {r order c f} : r.Reachable → Factory.withConfig r order c = .ok f → Reachable f
  | perform {f} (op : Operation ω) : Reachable f → Reachable (f.perform op)

/-- By induction on the operations: every factory that comes up is coherent. -/
theorem Factory.Reachable.coherent {f : Factory ω} (h : f.Reachable) : f.Coherent := by
  induction h with
  | @new r order hr => exact ⟨hr.coherent, CustomCodecs.coherent_empty order, Caches.coherent_empty⟩
  | @withConfig r order c f hr hc =>
    obtain ⟨-, -, h⟩ := except_bind_eq_ok.1 hc
    cases h
    refine ⟨?_, CustomCodecs.coherent_empty order, Caches.coherent_empty⟩
    exact hr.coherent.allowAll c.allowList
  | perform op _ ih => exact ih.perform op

/-- What holds of the codecs that are kept holds on, if it does when none is kept, when codecs are
built, and when some are forgotten. -/
theorem Factory.Reachable.caches_induction {P : Caches ω → Prop} (hempty : P .empty)
    (hbuild : ∀ {s : Setting ω} {c c'}, c.Coherent → s.registry.Coherent → s.Extends c c' →
      P c → P c')
    (hforget : ∀ {c} names, P c → P (Factory.Caches.forget c names)) {f : Factory ω}
    (h : f.Reachable) : P f.caches := by
  induction h with
  | new hr => exact hempty
  | withConfig hr hc =>
    obtain ⟨-, -, h⟩ := except_bind_eq_ok.1 hc
    cases h
    exact hempty
  | @perform f op hf ih =>
    obtain ⟨hsetting, hextends⟩ | ⟨shape, r, -, -, h⟩ | ⟨name, -, h⟩ | ⟨codec, b, -, -, h⟩ :=
      f.perform_cases op
    · exact hbuild hf.coherent.caches hf.coherent.registry hextends ih
    · rw [h]
      exact ih
    · rw [h]
      exact ih
    · rw [h]
      exact hforget _ ih

/-- A custom codec that describes its type can be registered. -/
theorem Factory.Reachable.registerCustom {f : Factory ω} (hf : f.Reachable)
    {codec : CustomCodec ω} {b : BoundCodec ω} (hb : BoundCodec.bind codec f.registry = .ok b) :
    Factory.Reachable { f with
      customs := f.customs.register b
      caches := Caches.forget f.caches ((f.customs.replacedName? b).toList ++ [b.typeName]) } := by
  have h := hf.perform (.registerCustom codec)
  rw [Factory.perform, Factory.registerCustom, hb] at h
  exact h

/-- A default codec is built where none is kept. -/
theorem Factory.perform_liveCodec {f : Factory ω} {name : String} {shape : TypeShape ω}
    {x : ObjectCodec ω} (hfree : f.caches.live.find? name = none)
    (hshape : f.registry.shape? name = some shape)
    (hbuild : ObjectCodec.build shape f.registry = .ok x) :
    f.perform (.liveCodec name) =
      { f with caches := { f.caches with live := f.caches.live.insert name x } } := by
  rw [Factory.perform, Factory.liveCodec, building,
    Setting.liveCodec_of_shape hfree hshape hbuild]
  rfl

/-- A default codec can be built where none is kept. -/
theorem Factory.Reachable.liveCodec {f : Factory ω} (hf : f.Reachable) {name : String}
    {shape : TypeShape ω} {x : ObjectCodec ω} (hfree : f.caches.live.find? name = none)
    (hshape : f.registry.shape? name = some shape)
    (hbuild : ObjectCodec.build shape f.registry = .ok x) :
    Factory.Reachable { f with
      caches := { f.caches with live := f.caches.live.insert name x } } := by
  rw [← Factory.perform_liveCodec hfree hshape hbuild]
  exact hf.perform _

end SelfDescribing
