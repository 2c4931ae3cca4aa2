import SelfDescribing.Proofs.Codec.Parts
import SelfDescribing.Proofs.Codec.Scanning
import SelfDescribing.Proofs.Envelope.Reading
import SelfDescribing.Proofs.Factory.WritingAnew
import SelfDescribing.Proofs.Registry.Subtyping

namespace SelfDescribing

open Steps Exchange

/-!
# Settings that differ in one type

Two settings that register one type differently, and all others alike, write and read all objects
alike that are not of this type.

* `Setting.AgreesOff` — settings whose types of other names are the same, but for the supertypes
  that schemas tell of them.
* `Setting.AgreesOff.reads` — reading gives the same in both, with schemas that tell the same of the
  tags there.
* `Setting.Avoids`, `Setting.writes_of_avoids` — writing objects of other host types gives the same
  in both, within the limits of both.

Reading is by induction on the room, and writing on the depth of the objects.  In both, the codecs
chosen on the two sides are related first, and then the requests that they make.
-/

variable {ω : Type}

/-! ### Codecs that tell other supertypes -/

/-- The codec where schemas tell other supertypes of the type. -/
def ObjectCodec.telling (c : ObjectCodec ω) (provides : List String) : ObjectCodec ω :=
  { c with composite := { c.composite with provides := provides } }

/-- Where the same can be assigned, a shape is resolved to the same constructor and properties. -/
theorem TypeShape.resolve_congr (shape : TypeShape ω) {r r' : Registry ω}
    (h : r'.isAssignable = r.isAssignable) : shape.resolve r' = shape.resolve r := by
  have hproperty : shape.propertyFor r' = shape.propertyFor r := by
    funext p
    unfold propertyFor
    rw [h]
  unfold resolve
  rw [hproperty]

/-- A default codec depends on the registry in two ways: which types can be assigned, and which
supertypes it tells. -/
theorem ObjectCodec.build_congr (shape : TypeShape ω) {r r' : Registry ω}
    (h : r'.isAssignable = r.isAssignable) :
    build shape r' = (build shape r).map (·.telling (r'.provides shape.name)) := by
  unfold build
  rw [shape.resolve_congr h]
  cases shape.resolve r <;> rfl

/-- Two codecs that differ at most in the supertypes that schemas tell of their types. -/
inductive Codec.Retells : Codec ω → Codec ω → Prop
  | same (codec) : Retells codec codec
  | object (c provides) : Retells (.object c) (.object (c.telling provides))

/-- Notations of one type that tell the same fields of it. -/
inductive TypeNotation.Agrees : TypeNotation → TypeNotation → Prop
  | composite {c c'} : c'.name = c.name → c'.fields = c.fields →
      Agrees (.composite c) (.composite c')
  | restricted {r r'} : r'.name = r.name → Agrees (.restricted r) (.restricted r')

namespace TypeNotation.Agrees

variable {type type' : TypeNotation}

/-- A notation agrees with itself. -/
theorem refl : ∀ type, Agrees type type
  | .composite _ => .composite rfl rfl
  | .restricted _ => .restricted rfl

/-- Notations that agree have one name. -/
theorem name_eq (h : Agrees type type') : type'.name = type.name := by
  cases h with
  | composite hname _ => exact hname
  | restricted hname => exact hname

/-- Supertypes have no part in comparing fields. -/
theorem sameFields_eq (h : Agrees type type') (live : ObjectCodec ω) (provides : List String) :
    Setting.sameFields type' (live.telling provides) = Setting.sameFields type live := by
  cases h with
  | composite _ hfields =>
    simp only [Setting.sameFields, TypeNotation.composite?, ObjectCodec.telling, hfields]
  | restricted _ => rfl

/-- Supertypes have no part in whether field names repeat. -/
theorem distinct (h : Agrees type type') (hdistinct : type.Distinct) : type'.Distinct := by
  cases h with
  | composite _ hfields =>
    rw [TypeNotation.Distinct, CompositeType.fieldNames, hfields]
    exact hdistinct
  | restricted _ => exact trivial

end TypeNotation.Agrees

namespace Codec.Retells

variable {c c' : Codec ω}

/-- Retelling keeps the descriptor. -/
theorem descriptor_eq (h : Retells c c') : c'.descriptor = c.descriptor := by cases h <;> rfl

/-- Retelling keeps what is written. -/
theorem write_eq [LiveObject ω] (h : Retells c c') :
    c'.write c'.typeName = c.write c.typeName := by cases h <;> rfl

/-- What is told then agrees with what was told before. -/
theorem agrees (h : Retells c c') : c.type.Agrees c'.type := by
  cases h with
  | same codec => exact .refl _
  | object c provides => exact .composite rfl rfl

end Codec.Retells

namespace EvolutionCodec

/-- What an old shape is read as depends on its fields and on what can be assigned. -/
theorem like_make {old old' : CompositeType} {live : ObjectCodec ω} {r r' : Registry ω}
    (hfields : old'.fields = old.fields) (h : r'.isAssignable = r.isAssignable)
    (provides : List String) : Like (fun x x' => x.read = x'.read) (make old live r)
      (make old' (live.telling provides) r') := by
  -- The sources of parameters depend on the old fields and on what can be assigned.
  have hsources : ∀ p, sourceFor r' (live.telling provides).typeName (oldFieldsOf old') p =
      sourceFor r live.typeName (oldFieldsOf old) p := by
    intro p
    unfold sourceFor oldFieldsOf
    rw [hfields, h]
    rfl
  have hread : ∀ sources k, read (ω := ω) ⟨live.typeName, old, sources, k⟩ =
      read ⟨live.typeName, old', sources, k⟩ := by
    intro sources k
    funext S body
    cases body with
    | list items =>
      rw [read, read]
      simp only [hfields]
    | _ => rfl
  unfold make
  rw [show (live.telling provides).constructor = live.constructor from rfl, funext hsources]
  cases live.constructor with
  | none => exact .error _
  | some k =>
    dsimp only
    cases k.params.mapM (sourceFor r live.typeName (oldFieldsOf old)) with
    | error e => exact .error e
    | ok sources => exact .ok (hread sources k)

end EvolutionCodec

/-! ### Schemas -/

/-- Schemas that tell the same of the tags in a value, none of which they tell as one of a name. -/
def Schema.AgreesOff (S S' : Schema) (name : String) (v : Value ω) : Prop :=
  ∀ descriptor body, (Value.described descriptor body).PartOf v →
    Option.Rel TypeNotation.Agrees (S.findByDescriptor? descriptor)
      (S'.findByDescriptor? descriptor) ∧
    ∀ type, S.findByDescriptor? descriptor = some type → type.name ≠ name

namespace Schema.AgreesOff

variable {S S' : Schema} {name : String} {v w : Value ω}

/-- What holds of the tags in a value holds of those in its parts. -/
theorem part (h : S.AgreesOff S' name w) (hv : v.PartOf w) : S.AgreesOff S' name v :=
  fun descriptor body hpart => h descriptor body (hpart.trans hv)

/-- Schemas that agree off a type list the same tags in a value without it. -/
theorem listsAlike (h : S.AgreesOff S' name v) : S.ListsAlike S' v := by
  intro descriptor body hpart
  have hrel := (h descriptor body hpart).1
  revert hrel
  generalize S.findByDescriptor? descriptor = found
  generalize S'.findByDescriptor? descriptor = found'
  rintro (_ | _) <;> rfl

end Schema.AgreesOff

/-! ### Settings -/

namespace Setting

/-- Settings that find the same codecs for all types but one, except that schemas may tell other
supertypes of them. -/
structure AgreesOff (s s' : Setting ω) (name : String) : Prop where
  customs : s.customs.AnswersAs s'.customs
  evolution : s'.config.evolution = s.config.evolution
  isSubtype : s'.registry.isSubtype = s.registry.isSubtype
  shape? : ∀ {n}, n ≠ name → s'.registry.shape? n = s.registry.shape? n

variable {s s' : Setting ω} {name : String} {S S' : Schema}

/-- A setting agrees with itself off every type. -/
theorem AgreesOff.refl (s : Setting ω) (name : String) : s.AgreesOff s name :=
  ⟨.refl _, rfl, rfl, fun _ => rfl⟩

namespace AgreesOff

variable (h : s.AgreesOff s' name)

include h

/-- Which types can be assigned is a matter of subtypes. -/
theorem isAssignable : s'.registry.isAssignable = s.registry.isAssignable :=
  Registry.isAssignable_congr h.isSubtype

/-- The default codec of another type is the same but for the supertypes that it tells. -/
theorem like_buildLive {n : String} (hn : n ≠ name) :
    Like (fun c c' => ∃ provides, c' = c.telling provides) (s.buildLive n) (s'.buildLive n) := by
  rw [buildLive, buildLive, h.shape? hn]
  cases s.registry.shape? n with
  | none => exact .error _
  | some shape =>
    dsimp only
    rw [ObjectCodec.build_congr shape h.isAssignable]
    cases ObjectCodec.build shape s.registry with
    | error e => exact .error e
    | ok c => exact .ok ⟨_, rfl⟩

/-- The codec of an older shape reads by name and fields, whatever supertypes are told. -/
theorem like_makeOld {old old' : CompositeType} (hname : old'.name = old.name)
    (hfields : old'.fields = old.fields) (hn : old.name ≠ name) :
    Like (fun x x' => x.read = x'.read) (s.makeOld old) (s'.makeOld old') := by
  rw [makeOld, makeOld, hname]
  refine (h.like_buildLive hn).bind ?_
  rintro live _ ⟨provides, rfl⟩
  exact EvolutionCodec.like_make hfields h.isAssignable provides

/-! ### Reading -/

variable [LiveObject ω]

/-- The codecs that are chosen for a tag read alike. -/
theorem like_chooses {descriptor : Value ω}
    (hfind : Option.Rel TypeNotation.Agrees (S.findByDescriptor? descriptor)
      (S'.findByDescriptor? descriptor))
    (hname : ∀ type, S.findByDescriptor? descriptor = some type → type.name ≠ name) :
    Like (fun c c' => c.read = c'.read) (s.chooses S descriptor) (s'.chooses S' descriptor) := by
  rw [chooses, chooses]
  -- The two schemas are used for what they find, and for nothing else.
  revert hfind hname
  generalize S.findByDescriptor? descriptor = found
  generalize S'.findByDescriptor? descriptor = found'
  rintro (hagrees | _) hname
  · rename_i type type'
    have hn := hname type rfl
    dsimp only
    rw [hagrees.name_eq, h.customs.codec?]
    cases s.customs.codec? type.name with
    | some b => exact .ok rfl
    | none =>
      refine (h.like_buildLive hn).bind ?_
      rintro live _ ⟨provides, rfl⟩
      rw [hagrees.sameFields_eq]
      show Like _ (if (live.composite.descriptor.admits descriptor && sameFields type live) = true
        then _ else _) (if (live.composite.descriptor.admits descriptor && sameFields type live) =
          true then _ else _)
      split
      · exact .ok rfl
      -- Where the live fields are not told, it matters whether fields are told at all.
      · cases hagrees with
        | restricted _ => exact .error _
        | composite hsame hfields =>
          dsimp only [TypeNotation.composite?]
          rw [h.evolution, hfields]
          split
          · exact .error _
          · refine (h.like_makeOld hsame hfields hn).bind ?_
            intro x x' hread
            exact .ok hread
  · dsimp only
    rw [h.customs.codecFor?]
    cases s.customs.codecFor? descriptor with
    | some b => exact .ok rfl
    | none => exact .error _

end AgreesOff

variable [LiveObject ω]

/-- The codecs that are chosen ask for parts of bodies, if the custom codecs do. -/
theorem readsParts_of_chooses (hcustoms : ∀ b ∈ s.customs.codecs.values, ReadsParts b.read)
    {descriptor : Value ω} {c : Codec ω} (hc : s.chooses S descriptor = .ok c) :
    ReadsParts c.read := by
  cases c with
  | object c => exact c.readsParts
  | evolution c => exact c.readsParts
  | custom b =>
    refine hcustoms b ?_
    rw [chooses] at hc
    cases hfind : S.findByDescriptor? descriptor with
    | none =>
      rw [hfind] at hc
      cases hcodec : s.customs.codecFor? descriptor with
      | none =>
        rw [hcodec] at hc
        cases hc
      | some b' =>
        rw [hcodec] at hc
        cases hc
        exact CustomCodecs.mem_values_of_codecFor? hcodec
    | some type =>
      rw [hfind] at hc
      dsimp only at hc
      cases hcodec : s.customs.codec? type.name with
      | some b' =>
        rw [hcodec] at hc
        cases hc
        exact Table.mem_values_of_find? hcodec
      | none =>
        -- No other codec that is chosen is a custom one.
        rw [hcodec] at hc
        obtain ⟨live, -, hc⟩ := except_bind_eq_ok.1 hc
        split at hc
        · cases hc
        · split at hc
          · cases hc
          · split at hc
            · cases hc
            · obtain ⟨x, -, hc⟩ := except_bind_eq_ok.1 hc
              cases hc

/-- Only described values are read as objects. -/
theorem reads_of_not_described {v : Value ω}
    (hv : ∀ descriptor body, v ≠ .described descriptor body) (room : Nat) : s.reads S room v = .error (.malformed (.notObject v.kind)) := by
  cases v with
  | described descriptor body => exact absurd rfl (hv descriptor body)
  | _ => cases room <;> rfl

/-- Values without the type that differs are read alike, within the limits of both. -/
theorem AgreesOff.reads (h : s.AgreesOff s' name)
    (hcustoms : ∀ b ∈ s.customs.codecs.values, ReadsParts b.read) {room room' : Nat} {v : Value ω}
    (hschemas : S.AgreesOff S' name v) (hroom : v.nesting ≤ room) (hroom' : v.nesting ≤ room') :
    s'.reads S' room' v = s.reads S room v := by
  -- By the levels that are left: codecs ask for parts, which nest less deep.
  induction room generalizing room' v with
  | zero =>
    have hv : ∀ descriptor body, v ≠ .described descriptor body := by
      rintro descriptor body rfl
      rw [Value.nesting] at hroom
      omega
    rw [reads_of_not_described hv, reads_of_not_described hv]
  | succ room ih =>
    by_cases hv : ∀ descriptor body, v ≠ .described descriptor body
    · rw [reads_of_not_described hv, reads_of_not_described hv]
    · push Not at hv
      obtain ⟨descriptor, body, rfl⟩ := hv
      rw [Value.nesting] at hroom hroom'
      obtain ⟨room', rfl⟩ : ∃ n, room' = n + 1 := ⟨room' - 1, by omega⟩
      have hbody := hschemas.part (.body .refl)
      obtain ⟨hfind, hname⟩ := hschemas descriptor body .refl
      have hlike := h.like_chooses hfind hname
      show (s'.chooses S' descriptor >>= fun c => (c.read S' body).eval (s'.reads S' room')) =
        s.chooses S descriptor >>= fun c => (c.read S body).eval (s.reads S room)
      cases hc : s.chooses S descriptor with
      | error e =>
        rw [hc] at hlike
        rw [eq_error_of_like hlike]
        rfl
      | ok c =>
        have hparts := readsParts_of_chooses hcustoms hc
        rw [hc] at hlike
        obtain ⟨c', hc', hread⟩ := exists_of_like hlike
        rw [hc']
        show (c'.read S' body).eval _ = (c.read S body).eval _
        rw [← hread, hparts.congr hbody.listsAlike]
        refine (eval_congr _ fun q hq => ?_).1
        have hpart : q.PartOf body := (hparts.asksOnly S body).of_mem_asks hq
        have hnesting := hpart.nesting_le
        exact ih (hbody.part hpart) (by omega) (by omega)

/-! ### Writing -/

/-- While an object is written, no object of some host types is, and objects nest at most `n`
deep. -/
def Avoids (s : Setting ω) (hosts : List HostType) : (n : Nat) → WriteRequest ω → Prop
  | 0, _ => False
  | n + 1, q => LiveObject.hostType q.object ∉ hosts ∧ ∀ q' ∈ s.inside n q, s.Avoids hosts n q'

variable {hosts : List HostType} {R : Codec ω → Codec ω → Prop}

/-- What is written of objects of other host types, and by which codecs, is the same where these are
chosen alike, whatever is left of the nesting limits. -/
theorem writes_of_avoids
    (hwrite : ∀ {c c'}, R c c' → c'.write c'.typeName = c.write c.typeName)
    (hchosen : ∀ q : WriteRequest ω, LiveObject.hostType q.object ∉ hosts →
      Like R (s.writerOf q) (s'.writerOf q)) {n room : Nat} {q : WriteRequest ω}
    (havoids : s.Avoids hosts n q) (hroom : n ≤ room) : s'.writes room q = s.writes n q ∧
      List.Forall₂ R (s.visits n q) (s'.visits room q) := by
  -- The induction is on the depth that avoids the host types; the room may be larger on the second
  -- side.
  induction n generalizing room q with
  | zero => exact absurd havoids id
  | succ n ih =>
    obtain ⟨hhost, hinside⟩ := havoids
    obtain ⟨room, rfl⟩ : ∃ r, room = r + 1 := ⟨room - 1, by omega⟩
    have hlike := hchosen q hhost
    cases hc : s.writerOf q with
    | error e =>
      rw [hc] at hlike
      have hc' := eq_error_of_like hlike
      rw [Setting.writes, Setting.writes, visits, visits, hc, hc']
      exact ⟨rfl, .nil⟩
    | ok c =>
      rw [hc] at hlike
      obtain ⟨c', hc', hrelated⟩ := exists_of_like hlike
      have hsameWrite := congrFun (hwrite hrelated) q.object
      have hasked : s.inside n q = (c.write c.typeName q.object).asks (s.writes n) := by
        rw [inside, hc]
      -- What is asked for inside avoids the host types too, with one level less.
      have hanswers : ∀ q' ∈ (c.write c.typeName q.object).asks (s.writes n),
          s'.writes room q' = s.writes n q' :=
        fun q' hq' => (ih (hinside q' (hasked ▸ hq')) (by omega)).1
      have hsame := eval_congr (c.write c.typeName q.object) hanswers
      have hasked' : s'.inside room q = s.inside n q := by
        rw [hasked, ← hsame.2, ← hsameWrite, inside, hc']
      constructor
      · show (s'.writerOf q >>= fun c => (c.write c.typeName q.object).eval (s'.writes room)) =
          s.writerOf q >>= fun c => (c.write c.typeName q.object).eval (s.writes n)
        rw [hc, hc']
        show (c'.write c'.typeName q.object).eval _ = (c.write c.typeName q.object).eval _
        rw [hsameWrite, hsame.1]
      · rw [visits, visits, hc, hc']
        dsimp only
        rw [hasked']
        exact .cons hrelated
          (forall₂_flatMap fun q' hq' => (ih (hinside q' hq') (by omega)).2)

end Setting

end SelfDescribing
