import SelfDescribing.Proofs.Codec.Evolving
import SelfDescribing.Proofs.Codec.Matching
import SelfDescribing.Proofs.Factory.Building

namespace SelfDescribing

open Steps

/-!
# Reading without caches

What reading gives does not depend on the codecs that are kept, if these were built in the same
setting and the fingerprints of old shapes tell their fields apart.

* `Setting.buildLive`, `Setting.chooses`, `Setting.reads` — the default codec of a type, the codec
  that reads a value, and reading, with all codecs built anew.
* `Setting.Keeps` — the codecs that are kept were built in the setting, from known shapes.
* `Setting.simulates_readWithin`, `Factory.outcome_decode` — reading and decoding with such codecs
  kept give the same.

`reads` is reading as a function of the setting and the value.  A factory with caches simulates it:
whatever it keeps was built in the setting, so that keeping it instead of building it anew makes no
difference.  Proofs about decoding go through `reads`, and so need not mention caches at all.
-/

variable {ω : Type}

/-- Reading does not depend on what is told of an old shape besides its fields. -/
theorem EvolutionCodec.read_of_same_fields {old old' : CompositeType} {live : ObjectCodec ω}
    {r : Registry ω} {x : EvolutionCodec ω} (hmake : make old live r = .ok x)
    (hfields : old'.fields = old.fields) : ∃ x', make old' live r = .ok x' ∧
      ∀ schema body, x'.read schema body = x.read schema body := by
  obtain ⟨k, hk, hx⟩ := make_eq_ok hmake
  -- The codec is the same but for the shape it remembers.
  refine ⟨{ x with composite := old' }, ?_, ?_⟩
  · subst hx
    unfold make at hmake ⊢
    rw [hk] at hmake ⊢
    dsimp only at hmake ⊢
    rw [show oldFieldsOf (ω := ω) old' = oldFieldsOf old by rw [oldFieldsOf, oldFieldsOf, hfields]]
    obtain ⟨sources, hsources, h⟩ := except_bind_eq_ok.1 hmake
    rw [hsources]
    cases h
    rfl
  · subst hx
    intro schema body
    cases body with
    | list items =>
      rw [read, read]
      simp only [hfields]
    | _ => rfl

namespace Setting

/-- The default codec of a registered type name, built anew. -/
def buildLive (s : Setting ω) (name : String) : Except Error (ObjectCodec ω) :=
  match s.registry.shape? name with
  | none => .error (.typeNotFound name)
  | some shape => ObjectCodec.build shape s.registry

/-- The codec that reads an older shape of a registered type, built anew. -/
def makeOld (s : Setting ω) (old : CompositeType) : Except Error (EvolutionCodec ω) := do
  EvolutionCodec.make old (← s.buildLive old.name) s.registry

/-- The default codec of a registered name is built from its shape. -/
theorem buildLive_of_shape {s : Setting ω} {name : String} {shape : TypeShape ω}
    (h : s.registry.shape? name = some shape) :
    s.buildLive name = ObjectCodec.build shape s.registry := by rw [buildLive, h]

/-- A default codec that can be built is built from a registered shape. -/
theorem buildLive_eq_ok {s : Setting ω} {name : String} {live : ObjectCodec ω}
    (h : s.buildLive name = .ok live) :
    ∃ shape, s.registry.shape? name = some shape ∧
      ObjectCodec.build shape s.registry = .ok live := by
  unfold buildLive at h
  split at h
  · cases h
  · rename_i shape hshape
    exact ⟨shape, hshape, h⟩

/-- The codec that reads the values of a descriptor, built anew. -/
def chooses [LiveObject ω] (s : Setting ω) (schema : Schema) (descriptor : Value ω) :
    Except Error (Codec ω) :=
  match schema.findByDescriptor? descriptor with
  | none =>
    match s.customs.codecFor? descriptor with
    | some c => .ok (.custom c)
    | none => .error (.malformed (.unlistedDescriptor descriptor.text))
  | some type =>
    match s.customs.codec? type.name with
    | some c => .ok (.custom c)
    | none => do
      let live ← s.buildLive type.name
      if live.composite.descriptor.admits descriptor && sameFields type live then
        return .object live
      match type.composite? with
      | none => .error (.malformed (.restrictedWithoutCodec type.name))
      | some old =>
        if !s.config.evolution then
          .error (.incompatible type.name (firstDifference old.fields live.composite.fields)
            .evolutionDisabled)
        else return .evolution (← s.makeOld old)

/-- Read an object where `room` levels of nesting are left, with all codecs built anew. -/
def reads [LiveObject ω] (s : Setting ω) (schema : Schema) : (room : Nat) → Value ω → Except Error ω
  | room, .described descriptor body =>
    match room with
    | 0 => .error (.depthExceeded s.config.maxDepth)
    | room + 1 => do
      let codec ← s.chooses schema descriptor
      (codec.read schema body).eval (s.reads schema room)
  | _, v => .error (.malformed (.notObject v.kind))

/-- The codecs that are kept were built in the setting, and those of old shapes from known ones. -/
structure Keeps (s : Setting ω) (known : CompositeType → Prop) (c : Caches ω) : Prop where
  built : s.Extends .empty c
  known : ∀ {key x}, c.evolution.find? key = some x → known x.composite

/-- Known shapes of one name that differ in their fields have different fingerprints. -/
def TellsApart (known : CompositeType → Prop) : Prop :=
  ∀ old old', known old → known old' → evolutionKey old = evolutionKey old' →
    old.fields = old'.fields

variable {s : Setting ω} {known : CompositeType → Prop} {c : Caches ω}

/-- A default codec that was built in the setting is the one that would be built anew. -/
theorem Extends.buildLive (h : s.Extends .empty c) {name : String} {x : ObjectCodec ω}
    (hx : c.live.find? name = some x) : s.buildLive name = .ok x := by
  obtain hempty | ⟨shape, hshape, hbuild⟩ := h.live_new hx
  · cases hempty
  · rw [buildLive_of_shape hshape, hbuild]

/-- Default codecs may be added as long as they are built in the setting. -/
theorem Keeps.extend (h : s.Keeps known c) {c' : Caches ω} (hextends : s.Extends c c')
    (hsame : c'.evolution = c.evolution) : s.Keeps known c' :=
  ⟨trans_of s.Extends h.built hextends, fun hx => h.known (hsame ▸ hx)⟩

/-- The default codec is the one that would be built anew, kept or not. -/
theorem simulates_liveCodec (s : Setting ω) (known : CompositeType → Prop) (name : String) :
    Simulates (s.Keeps known) Eq (s.liveCodec name) (s.buildLive name) := by
  constructor
  · intro c h
    obtain ⟨x, hx, he⟩ | ⟨shape, x, -, hshape, hbuild, he⟩ | ⟨-, e, he, hmissing⟩ :=
      s.liveCodec_cases name c
    · rw [he, h.built.buildLive hx]
      exact .ok rfl
    · rw [he, buildLive_of_shape hshape, hbuild]
      exact .ok rfl
    · rw [he]
      obtain ⟨hshape, rfl⟩ | ⟨shape, hshape, hbuild⟩ := hmissing
      · rw [buildLive, hshape]
        exact .error _
      · rw [buildLive_of_shape hshape, hbuild]
        exact .error e
  · intro c h
    exact h.extend ((s.moves_liveCodec name).to_final c) (s.evolution_of_liveCodec name c)

/-- A codec of an older shape that is kept reads like the one that is built anew. -/
theorem Keeps.like_makeOld (h : s.Keeps known c) (hapart : TellsApart known)
    {old : CompositeType} (hold : known old) {x : EvolutionCodec ω}
    (hx : c.evolution.find? (evolutionKey old) = some x) :
    Like (fun x y => ∀ schema body, x.read schema body = y.read schema body)
      (.ok x) (s.makeOld old) := by
  obtain hempty | ⟨old₀, live, hkey, hfind, hmake⟩ := h.built.evolution_new hx
  · cases hempty
  obtain ⟨k, -, hx₀⟩ := EvolutionCodec.make_eq_ok hmake
  have hold₀ : known old₀ := by
    have hknown := h.known hx
    rwa [hx₀] at hknown
  -- The shape it was built from has the same key, and so the same name and the same fields.
  have hname : old₀.name = old.name := congrArg Prod.fst hkey
  have hfields : old₀.fields = old.fields := hapart old₀ old hold₀ hold hkey
  obtain ⟨x', hmake', hreads⟩ := EvolutionCodec.read_of_same_fields hmake hfields.symm
  rw [makeOld, ← hname, h.built.buildLive hfind]
  show Like _ (.ok x) (EvolutionCodec.make old live s.registry)
  rw [hmake']
  exact .ok fun schema body => (hreads schema body).symm

/-- A codec of a known shape may be added. -/
theorem Keeps.insert_evolution (h : s.Keeps known c) {old : CompositeType} (hold : known old)
    {live : ObjectCodec ω} {x : EvolutionCodec ω}
    (hmake : EvolutionCodec.make old live s.registry = .ok x)
    (hextends : s.Extends .empty { c with evolution := c.evolution.insert (evolutionKey old) x }) :
    s.Keeps known { c with evolution := c.evolution.insert (evolutionKey old) x } := by
  refine ⟨hextends, ?_⟩
  intro key y hy
  rw [Table.find?_insert] at hy
  split at hy
  · cases hy
    obtain ⟨k, -, rfl⟩ := EvolutionCodec.make_eq_ok hmake
    exact hold
  · exact h.known hy

/-- Asking for the codec of a known shape keeps codecs of known shapes only. -/
theorem Keeps.evolutionCodec (h : s.Keeps known c) {old : CompositeType} (hold : known old) :
    s.Keeps known (final (s.evolutionCodec old c)) := by
  have hbuilt : s.Extends .empty (final (s.evolutionCodec old c)) :=
    trans_of s.Extends h.built ((s.moves_evolutionCodec old).to_final c)
  have hlive := (s.simulates_liveCodec known old.name).keeps h
  obtain ⟨x, -, he⟩ | ⟨-, ⟨e, c₁, hfound, he⟩ | ⟨live, c₁, hfound, hmade⟩⟩ :=
    s.evolutionCodec_cases old c
  · rw [he]
    exact h
  · rw [hfound] at hlive
    rw [he]
    exact hlive
  · rw [hfound] at hlive
    obtain ⟨e, -, he⟩ | ⟨x, hmake, he⟩ := hmade
    · rw [he]
      exact hlive
    · rw [he] at hbuilt ⊢
      exact hlive.insert_evolution hold hmake hbuilt

/-- The codec that is kept under the fingerprint of a known shape has the fields of the shape, so
that it reads as one made anew. -/
theorem simulates_evolutionCodec (hapart : TellsApart known) {old : CompositeType}
    (hold : known old) : Simulates (s.Keeps known)
      (fun x y => ∀ schema body, x.read schema body = y.read schema body)
      (s.evolutionCodec old) (s.makeOld old) := by
  refine ⟨fun {c} h => ?_, fun h => h.evolutionCodec hold⟩
  have hlike := (s.simulates_liveCodec known old.name).like h
  obtain ⟨x, hx, he⟩ | ⟨-, ⟨e, c₁, hfound, he⟩ | ⟨live, c₁, hfound, hmade⟩⟩ :=
    s.evolutionCodec_cases old c
  · rw [he]
    exact h.like_makeOld hapart hold hx
  · rw [hfound] at hlike
    rw [he, makeOld, ← eq_of_like hlike]
    exact .error e
  · rw [hfound] at hlike
    rw [makeOld, ← eq_of_like hlike]
    show Like _ _ (EvolutionCodec.make old live s.registry)
    obtain ⟨e, hmake, he⟩ | ⟨x, hmake, he⟩ := hmade
    · rw [he, hmake]
      exact .error e
    · rw [he, hmake]
      exact .ok fun _ _ => rfl

section Reading

variable [LiveObject ω] {schema : Schema}

/-- The codec that is chosen for a value reads like the one that is built anew. -/
theorem simulates_readerFor (hapart : TellsApart known)
    (hknown : ∀ old, .composite old ∈ schema.types → known old) (descriptor : Value ω) :
    Simulates (s.Keeps known)
      (fun x y => ∀ schema body, x.read schema body = y.read schema body)
      (s.readerFor schema descriptor) (s.chooses schema descriptor) := by
  unfold readerFor chooses
  cases hfind : schema.findByDescriptor? descriptor with
  | none =>
    cases s.customs.codecFor? descriptor with
    | some b => exact .pure fun _ _ => rfl
    | none => exact .throw _
  | some type =>
    cases hcustom : s.customs.codec? type.name with
    | some b =>
      simp only [hcustom]
      exact .pure fun _ _ => rfl
    | none =>
      simp only [hcustom]
      -- The default codec is the one built anew, and from here on both choose by the same tests.
      refine (s.simulates_liveCodec known type.name).bind ?_
      rintro live _ rfl
      by_cases hsame : (live.composite.descriptor.admits descriptor && sameFields type live) = true
      · rw [if_pos hsame, if_pos hsame]
        exact .pure fun _ _ => rfl
      · rw [if_neg hsame, if_neg hsame]
        cases type with
        | restricted t => exact .throw _
        | composite old =>
          dsimp only [TypeNotation.composite?]
          have hold : known old := hknown old (List.mem_of_find?_eq_some hfind)
          by_cases hevolution : (!s.config.evolution) = true
          · rw [if_pos hevolution, if_pos hevolution]
            exact .throw _
          · rw [if_neg hevolution, if_neg hevolution]
            exact (simulates_evolutionCodec hapart hold).bind fun x y hxy => .pure hxy

/-- Reading with codecs that are kept gives what it gives with all codecs built anew. -/
theorem simulates_readWithin (hapart : TellsApart known)
    (hknown : ∀ old, .composite old ∈ schema.types → known old) (room : Nat) (v : Value ω) :
    Simulates (s.Keeps known) Eq (s.readWithin schema room v) (s.reads schema room v) := by
  induction room generalizing v with
  | zero => cases v <;> exact .throw _
  | succ room ih =>
    cases v with
    | described descriptor body =>
      refine (simulates_readerFor hapart hknown descriptor).bind fun x y hxy => ?_
      rw [← hxy schema body]
      exact Exchange.simulates_run ih _
    | _ => exact .throw _

end Reading

end Setting

/-! ### Decoding -/

namespace Factory

/-- The old shapes that reading a payload may look for or find kept. -/
def Observes (f : Factory ω) (schema : Schema) (old : CompositeType) : Prop :=
  .composite old ∈ schema.types ∨
    ∃ key x, f.caches.evolution.find? key = some x ∧ x.composite = old

/-- The codecs that are kept are those that are built from what the registry holds now. -/
def Current (f : Factory ω) : Prop := f.toSetting.Extends .empty f.caches

/-- A current factory keeps codecs of its own setting. -/
theorem Current.keeps {f : Factory ω} (h : f.Current) (schema : Schema) :
    f.toSetting.Keeps (f.Observes schema) f.caches :=
  ⟨h, fun hx => .inr ⟨_, _, hx, rfl⟩⟩

variable [LiveObject ω] {f : Factory ω} {t : HostType} {bytes : List UInt8} {e : Envelope ω}

/-- What decoding gives, with all codecs built anew. -/
def decodes (f : Factory ω) (t : HostType) (bytes : List UInt8) : Except Error ω := do
  let e ← openPayload t bytes f
  let object ← f.toSetting.reads e.schema f.config.maxDepth e.body
  Value.downcast (.ofHost t) object

/-- What is opened was parsed. -/
theorem parse_of_openPayload (h : openPayload t bytes f = .ok e) :
    Envelope.parse bytes f.config.maxDepth = .ok e := by
  obtain ⟨expected, -, h⟩ := except_bind_eq_ok.1 h
  obtain ⟨e', hparse, h⟩ := except_bind_eq_ok.1 h
  obtain ⟨found, -, h⟩ := except_bind_eq_ok.1 h
  split at h
  · cases h
  · cases h
    exact hparse

/-- The codecs that are kept do not change what decoding gives. -/
theorem outcome_decode (hcurrent : f.Current)
    (hparse : Envelope.parse bytes f.config.maxDepth = .ok e)
    (hapart : Setting.TellsApart (f.Observes e.schema)) :
    outcome (decode t bytes f) = f.decodes t bytes := by
  rw [outcome_decode_eq, decodes]
  cases hopen : openPayload t bytes f with
  | error err => rfl
  | ok e₁ =>
    cases (parse_of_openPayload hopen).symm.trans hparse
    have hread := eq_of_like ((f.toSetting.simulates_readWithin hapart (fun _ h => .inl h)
      f.config.maxDepth e.body).like (hcurrent.keeps e.schema))
    exact congrArg (· >>= Value.downcast (.ofHost t)) hread

end Factory

end SelfDescribing
