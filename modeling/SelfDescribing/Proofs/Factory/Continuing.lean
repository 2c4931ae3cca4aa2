import SelfDescribing.Proofs.Factory.Writing

namespace SelfDescribing

/-!
# Factories go on

* `Factory.Continues` — the ways in which a factory may go on without registering a type anew.
* `Factory.Serves` — what reading a payload needs of a factory, which stays while it goes on.

A factory may register shapes and custom codecs while payloads are in transit.  What matters for
reading one is that the codecs that wrote it are still found.  `Serves` is this invariant, and
`Serves.perform` its step lemma, with one case for each operation.
-/

variable {ω : Type}

namespace Setting

variable {s : Setting ω} {c : Caches ω} {codec : Codec ω}

/-! ### A shape more -/

/-- Registered names stay registered. -/
theorem Holds.register (h : s.Holds c codec) {r : Registry ω} {shape : TypeShape ω}
    (hr : s.registry.register shape = .ok () r) :
    Setting.Holds { s with registry := r } c codec := by
  cases codec with
  | evolution x => exact h
  | custom b => exact h
  | object x =>
    obtain ⟨hfree, hregistered, hlive⟩ := h
    refine ⟨hfree, ?_, hlive⟩
    show (r.shape? x.typeName).isSome = true
    rw [Registry.shape?_register hr]
    by_cases hname : shape.name = x.typeName
    · rw [if_pos hname]
      rfl
    · rw [if_neg hname]
      exact hregistered

/-- A host type that has a name keeps it: a shape registered later has another host type or the same
name. -/
theorem nameOfHost_register {r : Registry ω} {shape : TypeShape ω} {t : HostType} {name : String}
    (hr : s.registry.register shape = .ok () r) (h : s.nameOfHost t = .ok name) :
    Setting.nameOfHost { s with registry := r } t = .ok name := by
  unfold nameOfHost at h ⊢
  cases hcustom : s.customs.codecOf? t with
  | some b =>
    rw [hcustom] at h
    exact h
  | none =>
    rw [hcustom] at h
    cases hregistered : s.registry.nameOf? t with
    | none =>
      rw [hregistered] at h
      cases h
    | some found =>
      rw [hregistered] at h
      simp only [Registry.nameOf?_register hr hregistered]
      exact h

/-! ### A name more that schemas may tell -/

/-- A codec that is held stays so while names are allowed. -/
theorem Holds.allow (h : s.Holds c codec) (allowed : String) :
    Setting.Holds { s with registry := s.registry.allow allowed } c codec := by
  cases codec with
  | evolution x => exact h
  | custom b => exact h
  | object x => exact ⟨h.1, (Registry.shape?_allow _ _ _).symm ▸ h.2.1, h.2.2⟩

/-! ### A custom codec more -/

section Custom

variable {b : BoundCodec ω}

/-- A codec for a new host type takes the place of none of another name. -/
theorem codec?_of_new (hhost : s.customs.hostNames.find? b.codec.hostType = none) {name : String}
    (hname : name ≠ b.typeName) : (s.customs.register b).codec? name = s.customs.codec? name := by
  have hreplaced : s.customs.replacedName? b = none := by
    rw [CustomCodecs.replacedName?, hhost]
    rfl
  rw [CustomCodecs.codec?_register, if_neg (Ne.symm hname), hreplaced, if_neg (by simp)]

/-- A codec with a new name leaves the codecs that are held. -/
theorem Holds.registerCustom (h : s.Holds c codec) (hcustoms : s.customs.Coherent)
    (hname : ∀ t, s.customs.hostNames.find? t ≠ some b.typeName)
    (hshape : s.registry.shape? b.typeName = none)
    (hhost : s.customs.hostNames.find? b.codec.hostType = none) :
    Setting.Holds { s with customs := s.customs.register b }
      (Factory.Caches.forget c ((s.customs.replacedName? b).toList ++ [b.typeName])) codec := by
  cases codec with
  | evolution x => exact h
  | custom b₀ =>
    refine ⟨?_, h.2⟩
    -- Its host type leads to its name, and none leads to the new one.
    have hown := hcustoms.name_of_host h.1
    have hne : b₀.typeName ≠ b.typeName := by
      intro hsame
      exact hname _ (hown.trans (congrArg some hsame))
    show (s.customs.register b).codec? b₀.typeName = some b₀
    rw [codec?_of_new hhost hne, h.1]
  | object x =>
    obtain ⟨hfree, hregistered, hlive⟩ := h
    -- Its name is registered, and the new one is not, so its codec is not forgotten.
    have hne : x.typeName ≠ b.typeName := by
      intro hsame
      rw [hsame, hshape] at hregistered
      cases hregistered
    have hreplaced : s.customs.replacedName? b = none := by
      rw [CustomCodecs.replacedName?, hhost]
      rfl
    refine ⟨?_, hregistered, ?_⟩
    · show (s.customs.register b).codec? x.typeName = none
      rw [codec?_of_new hhost hne, hfree]
    · rw [Factory.Caches.forget, Table.find?_filterKeys, hreplaced, if_pos, hlive]
      simpa using hne

/-- A codec for a new host type and a new name leaves the names of the other host types. -/
theorem nameOfHost_registerCustom {t : HostType} {name : String} (h : s.nameOfHost t = .ok name)
    (hname : ∀ t, s.customs.hostNames.find? t ≠ some b.typeName)
    (hhost : s.customs.hostNames.find? b.codec.hostType = none)
    (hregistered : s.registry.nameOf? b.codec.hostType = none) :
    Setting.nameOfHost { s with customs := s.customs.register b } t = .ok name := by
  have hother : b.codec.hostType ≠ t := by
    -- What has a name is registered already.
    rintro rfl
    rw [nameOfHost, CustomCodecs.codecOf?, hhost, hregistered] at h
    cases h
  have hhostName : (s.customs.register b).hostNames.find? t = s.customs.hostNames.find? t := by
    show (s.customs.hostNames.insert b.codec.hostType b.typeName).find? t = _
    rw [Table.find?_insert, if_neg hother]
  have hcodecOf : (s.customs.register b).codecOf? t = s.customs.codecOf? t := by
    rw [CustomCodecs.codecOf?, CustomCodecs.codecOf?, hhostName]
    cases hfound : s.customs.hostNames.find? t with
    | none => rfl
    | some found =>
      refine codec?_of_new hhost ?_
      rintro rfl
      exact hname t hfound
  rw [← h, nameOfHost, nameOfHost, hcodecOf]

end Custom

end Setting

/-! ### What reading needs -/

variable [LiveObject ω]

namespace Factory

/-- An operation that does not register a type anew: a custom codec has a name and a host type
that were never registered. -/
def IsFresh (f : Factory ω) : Operation ω → Prop
  | .registerCustom codec =>
      (∀ t, f.customs.hostNames.find? t ≠ some codec.typeName) ∧
      f.registry.shape? codec.typeName = none ∧
      f.customs.hostNames.find? codec.hostType = none ∧
      f.registry.nameOf? codec.hostType = none
  | _ => True

/-- A factory may go on to be another one, by operations that register no type anew. -/
inductive Continues : Factory ω → Factory ω → Prop
  | refl (f) : Continues f f
  | perform {f g} (op : Operation ω) : Continues f g → g.IsFresh op → Continues f (g.perform op)

/-- What reading a payload needs of a factory: the configuration, the name of the root's host type
and the codecs. -/
structure Serves (f : Factory ω) (config : Config) (t : HostType) (name : String)
    (codecs : List (Codec ω)) : Prop where
  coherent : f.Coherent
  config_eq : f.config = config
  nameOfHost : f.nameOfHost t = .ok name
  holds : ∀ codec ∈ codecs, f.toSetting.Holds f.caches codec

/-- One case for each operation: a fresh one leaves the codecs of an object as they are, so that it
can be read afterwards. -/
theorem Serves.perform {f : Factory ω} {config : Config} {t : HostType} {name : String}
    {codecs : List (Codec ω)} (h : f.Serves config t name codecs) {op : Operation ω}
    (hfresh : f.IsFresh op) : (f.perform op).Serves config t name codecs := by
  have hcoherent := h.coherent.perform op
  obtain ⟨hsetting, hextends⟩ | ⟨shape, r, -, hr, he⟩ | ⟨allowed, -, he⟩ |
    ⟨codec, b, rfl, hb, he⟩ := f.perform_cases op
  · refine ⟨hcoherent, ?_, ?_, fun codec hcodec => ?_⟩
    · rw [hsetting, h.config_eq]
    · rw [hsetting, h.nameOfHost]
    · rw [hsetting]
      exact (h.holds codec hcodec).extends hextends
  · rw [he] at hcoherent ⊢
    exact ⟨hcoherent, h.config_eq, Setting.nameOfHost_register hr h.nameOfHost,
      fun codec hcodec => (h.holds codec hcodec).register hr⟩
  · rw [he] at hcoherent ⊢
    refine ⟨hcoherent, h.config_eq, ?_, fun codec hcodec => (h.holds codec hcodec).allow allowed⟩
    rw [← h.nameOfHost, Setting.nameOfHost, Setting.nameOfHost]
    simp only [Registry.nameOf?_allow]
  -- A fresh custom codec has another name and another host type than the object's codecs.
  · obtain ⟨hname, hshape, hhost, hregistered⟩ := hfresh
    obtain ⟨rfl, -⟩ := BoundCodec.bind_eq_ok hb
    rw [he] at hcoherent ⊢
    exact ⟨hcoherent, h.config_eq,
      Setting.nameOfHost_registerCustom h.nameOfHost hname hhost hregistered,
      fun codec hcodec =>
        (h.holds codec hcodec).registerCustom h.coherent.customs hname hshape hhost⟩

/-- By induction on the operations: fresh ones, however many, leave the codecs of an object as they
are. -/
theorem Serves.continues {f g : Factory ω} {config : Config} {t : HostType} {name : String}
    {codecs : List (Codec ω)} (h : f.Serves config t name codecs) (hg : f.Continues g) :
    g.Serves config t name codecs := by
  induction hg with
  | refl => exact h
  | perform op _ hfresh ih => exact ih.perform hfresh

end Factory

end SelfDescribing
