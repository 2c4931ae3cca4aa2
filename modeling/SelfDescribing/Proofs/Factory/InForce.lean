import Mathlib.Data.List.Induction
import SelfDescribing.Entity.Record
import SelfDescribing.Proofs.Factory.Reachable

namespace SelfDescribing

open Steps

/-!
# Custom codecs in force

What is found in a registry of custom codecs after any sequence of registrations.  The registry
keeps two tables, from host types to names and from names to codecs, and a name may go from one
host type to another while the first table still leads the former to it.

* `CustomCodecs.registerAll` — the registry after a sequence of registrations.
* `CustomCodecs.Takes` — a codec is registered under the name that another host type has.
* `CustomCodecs.Kept` — what a codec needs for being found, kept by every registration that
  concerns neither its host type, nor its name, nor a host type whose name it took.
* `Factory.codecs_in_force` — the codecs that a factory finds by name and by host type.
* `CustomCodecs.register_taken` — what becomes of a name that was taken.

A codec is followed from its own registration on.  `Kept` is preserved by every later one that does
not concern it, and the exceptions are listed in the statement.  Which codecs can be found under a
host type at all is by induction on the registrations from the back.
-/

variable {ω : Type}

namespace CustomCodecs

variable {c c₀ : CustomCodecs ω} {b x : BoundCodec ω} {t : HostType} {name : String}
  {bs : List (BoundCodec ω)} {order : ScanOrder}

/-- The registry after some codecs were registered, one after the other. -/
def registerAll (c : CustomCodecs ω) (bs : List (BoundCodec ω)) : CustomCodecs ω :=
  bs.foldl register c

/-- The name of a codec is the one that another host type has. -/
def Takes (c : CustomCodecs ω) (b : BoundCodec ω) (t : HostType) : Prop :=
  b.codec.hostType ≠ t ∧ c.hostNames.find? t = some b.typeName

/-- Registrations one after the other, in two groups. -/
theorem registerAll_append (c : CustomCodecs ω) (bs bs' : List (BoundCodec ω)) :
    c.registerAll (bs ++ bs') = (c.registerAll bs).registerAll bs' := List.foldl_append

/-! ### Single registrations -/

/-- A registration gives its host type the name of the codec, and no other host type a name. -/
theorem hostNames_register (c : CustomCodecs ω) (b : BoundCodec ω) (t : HostType) :
    (c.register b).hostNames.find? t =
      if b.codec.hostType = t then some b.typeName else c.hostNames.find? t :=
  Table.find?_insert _ _ _ _

/-- A host type leads to a codec in two steps, over a name. -/
theorem codecOf?_eq_some_iff :
    c.codecOf? t = some b ↔ ∃ name, c.hostNames.find? t = some name ∧ c.codec? name = some b :=
  Option.bind_eq_some_iff

/-- A name is replaced if the host type had another one. -/
theorem replacedName?_eq_some_iff :
    c.replacedName? b = some name ↔
      c.hostNames.find? b.codec.hostType = some name ∧ name ≠ b.typeName := by
  rw [replacedName?, Option.filter_eq_some_iff, decide_eq_true_iff]

/-- A name that is taken leads the host type that had it to the codec of another one, and is lost
when the former gets a new name. -/
theorem register_taken (htakes : c.Takes b x.codec.hostType) (hname : x.typeName ≠ b.typeName) :
    (c.register b).codecOf? x.codec.hostType = some b ∧
      ((c.register b).register x).codec? b.typeName = none ∧
      ((c.register b).register x).codecOf? b.codec.hostType = none := by
  obtain ⟨hother, htaken⟩ := htakes
  -- The first table is not told that the name belongs to another host type now.
  have hold : (c.register b).hostNames.find? x.codec.hostType = some b.typeName := by
    rw [hostNames_register, if_neg hother, htaken]
  have hfound : (c.register b).codec? b.typeName = some b := by
    rw [codec?_register, if_pos rfl]
  have hgone : ((c.register b).register x).codec? b.typeName = none := by
    have hreplaced := replacedName?_eq_some_iff.2 ⟨hold, Ne.symm hname⟩
    rw [codec?_register, if_neg hname, if_pos hreplaced]
  refine ⟨codecOf?_eq_some_iff.2 ⟨_, hold, hfound⟩, hgone, ?_⟩
  -- Its new owner is led to the name that is gone.
  rw [codecOf?, hostNames_register, if_neg (Ne.symm hother), hostNames_register, if_pos rfl]
  exact hgone

/-! ### Sequences of registrations -/

/-- What is found by host type belongs to it, or took its name. -/
theorem takes_of_codecOf? (h : ((empty order).registerAll bs).codecOf? t = some b) :
    b.codec.hostType = t ∨
      ∃ before after, bs = before ++ b :: after ∧ ((empty order).registerAll before).Takes b t := by
  induction bs using List.reverseRecOn with
  | nil => cases h
  | append_singleton bs x ih =>
    rw [registerAll_append, codecOf?_eq_some_iff] at h
    obtain ⟨name, hname, hcodec⟩ := h
    change (((empty order).registerAll bs).register x).hostNames.find? t = some name at hname
    change (((empty order).registerAll bs).register x).codec? name = some b at hcodec
    rw [hostNames_register] at hname
    rw [codec?_register] at hcodec
    by_cases hhost : x.codec.hostType = t
    · -- The last registration was for this host type.
      rw [if_pos hhost] at hname
      rw [if_pos (Option.some.inj hname)] at hcodec
      cases hcodec
      exact .inl hhost
    · rw [if_neg hhost] at hname
      by_cases hsame : x.typeName = name
      · -- It was for another one and took the name.
        rw [if_pos hsame] at hcodec
        cases hcodec
        exact .inr ⟨bs, [], rfl, hhost, hsame ▸ hname⟩
      · -- It did not concern the name, so that what is found was found before.
        rw [if_neg hsame] at hcodec
        split at hcodec
        · cases hcodec
        · refine (ih (codecOf?_eq_some_iff.2 ⟨name, hname, hcodec⟩)).imp_right ?_
          rintro ⟨before, after, rfl, htakes⟩
          exact ⟨before, after ++ [x], by simp, htakes⟩

/-- A codec that was registered in `c₀` is found in `c`, and its name leads to it from no other
host types than those that had the name in `c₀`. -/
structure Kept (c₀ : CustomCodecs ω) (b : BoundCodec ω) (c : CustomCodecs ω) : Prop where
  codec? : c.codec? b.typeName = some b
  hostNames : c.hostNames.find? b.codec.hostType = some b.typeName
  others : ∀ t, b.codec.hostType ≠ t → c.hostNames.find? t = some b.typeName →
    c₀.hostNames.find? t = some b.typeName

/-- A codec is kept right after it was registered. -/
theorem kept_register (c₀ : CustomCodecs ω) (b : BoundCodec ω) : Kept c₀ b (c₀.register b) := by
  refine ⟨?_, ?_, fun t hother h => ?_⟩
  · rw [codec?_register, if_pos rfl]
  · rw [hostNames_register, if_pos rfl]
  · rwa [hostNames_register, if_neg hother] at h

/-- A registration for another host type and under another name leaves a codec as it is found,
unless the codec took the name of that host type. -/
theorem Kept.register (h : Kept c₀ b c) (hhost : x.codec.hostType ≠ b.codec.hostType)
    (hname : x.typeName ≠ b.typeName) (huntaken : ¬ c₀.Takes b x.codec.hostType) :
    Kept c₀ b (c.register x) := by
  refine ⟨?_, ?_, fun t hother ht => ?_⟩
  · -- Only a host type that had the name already in `c₀` could have it removed.
    have hreplaced : c.replacedName? x ≠ some b.typeName := fun hreplaced =>
      huntaken ⟨Ne.symm hhost,
        h.others _ (Ne.symm hhost) (replacedName?_eq_some_iff.1 hreplaced).1⟩
    rw [codec?_register, if_neg hname, if_neg hreplaced, h.codec?]
  · rw [hostNames_register, if_neg hhost, h.hostNames]
  · rw [hostNames_register] at ht
    split at ht
    · exact absurd (Option.some.inj ht) hname
    · exact h.others t hother ht

/-- By induction on the registrations: a codec is kept by all that do not concern it. -/
theorem Kept.registerAll (h : Kept c₀ b c)
    (hothers : ∀ x ∈ bs, x.codec.hostType ≠ b.codec.hostType ∧ x.typeName ≠ b.typeName ∧
      ¬ c₀.Takes b x.codec.hostType) :
    Kept c₀ b (c.registerAll bs) := by
  induction bs generalizing c with
  | nil => exact h
  | cons x bs ih =>
    rw [List.forall_mem_cons] at hothers
    obtain ⟨⟨hhost, hname, huntaken⟩, hrest⟩ := hothers
    exact ih (h.register hhost hname huntaken) hrest

/-- A codec that is kept is found by its host type. -/
theorem Kept.codecOf? (h : Kept c₀ b c) : c.codecOf? b.codec.hostType = some b :=
  codecOf?_eq_some_iff.2 ⟨_, h.hostNames, h.codec?⟩

/-- By induction on the registrations: coherent registries stay so. -/
theorem Coherent.registerAll (hc : c.Coherent) (hbs : ∀ b ∈ bs, b.type.name = b.typeName) :
    (c.registerAll bs).Coherent := by
  induction bs generalizing c with
  | nil => exact hc
  | cons b bs ih =>
    rw [List.forall_mem_cons] at hbs
    exact ih (hc.register hbs.1) hbs.2

end CustomCodecs

namespace Factory

variable [LiveObject ω]

/-- The factory after some custom codecs were registered, one after the other; one that is refused
changes nothing. -/
def registerCustoms (f : Factory ω) (codecs : List (CustomCodec ω)) : Factory ω :=
  codecs.foldl (fun f codec => f.perform (.registerCustom codec)) f

/-- The codecs among some that a registry does not refuse, with what schemas tell about them. -/
def bound (r : Registry ω) (codecs : List (CustomCodec ω)) : List (BoundCodec ω) :=
  codecs.filterMap fun codec => (BoundCodec.bind codec r).toOption

omit [LiveObject ω] in
/-- Codecs that are refused leave no trace. -/
theorem bound_cons (r : Registry ω) (codec : CustomCodec ω) (codecs : List (CustomCodec ω)) :
    bound r (codec :: codecs) =
      match BoundCodec.bind codec r with
      | .ok b => b :: bound r codecs
      | .error _ => bound r codecs := by
  unfold bound
  rw [List.filterMap_cons]
  cases BoundCodec.bind codec r <;> rfl

/-- Registering custom codecs is registering those that are not refused. -/
theorem customs_registerCustoms (f : Factory ω) (codecs : List (CustomCodec ω)) :
    (f.registerCustoms codecs).customs = f.customs.registerAll (bound f.registry codecs) := by
  induction codecs generalizing f with
  | nil => rfl
  | cons codec codecs ih =>
    have hstep : f.registerCustoms (codec :: codecs) =
        (final (registerCustom codec f)).registerCustoms codecs := rfl
    rw [hstep, ih, bound_cons, registerCustom]
    cases BoundCodec.bind codec f.registry <;> rfl

omit [LiveObject ω] in
/-- A codec is bound only if it tells its own name. -/
theorem type_name_of_bound {r : Registry ω} {codecs : List (CustomCodec ω)} :
    ∀ b ∈ bound r codecs, b.type.name = b.typeName := by
  intro b hb
  obtain ⟨codec, -, hbind⟩ := List.mem_filterMap.1 hb
  cases h : BoundCodec.bind codec r with
  | error e =>
    rw [h] at hbind
    cases hbind
  | ok b' =>
    rw [h] at hbind
    cases hbind
    exact (BoundCodec.bind_eq_ok h).2

/-- After any registrations in a factory without custom codecs, a codec that is found by name is
found for its own host type.  One that is found for a host type belongs to it, unless it took the
name of this host type from it.  A codec that was registered is found by its name and for its host
type, unless a later registration was for this host type or under this name, or for a host type
whose name the codec took. -/
theorem codecs_in_force {f : Factory ω} {order : ScanOrder} (hnew : f.customs = .empty order)
    (codecs : List (CustomCodec ω)) :
    (∀ name b, (f.registerCustoms codecs).customs.codec? name = some b → b.typeName = name ∧
      (f.registerCustoms codecs).customs.codecOf? b.codec.hostType = some b) ∧
    (∀ t b, (f.registerCustoms codecs).customs.codecOf? t = some b → b.codec.hostType = t ∨
      ∃ before after, bound f.registry codecs = before ++ b :: after ∧
        ((CustomCodecs.empty order).registerAll before).Takes b t) ∧
    ∀ before b after, bound f.registry codecs = before ++ b :: after →
      ((f.registerCustoms codecs).customs.codec? b.typeName = some b ∧
        (f.registerCustoms codecs).customs.codecOf? b.codec.hostType = some b) ∨
      ∃ x ∈ after, x.codec.hostType = b.codec.hostType ∨ x.typeName = b.typeName ∨
        ((CustomCodecs.empty order).registerAll before).Takes b x.codec.hostType := by
  -- The registry of the factory is the one after the registrations that were not refused.
  have hcustoms := f.customs_registerCustoms codecs
  rw [hnew] at hcustoms
  rw [hcustoms]
  refine ⟨fun name b hb => ?_, fun t b hb => CustomCodecs.takes_of_codecOf? hb, ?_⟩
  · have hnames : ∀ b ∈ bound f.registry codecs, b.type.name = b.typeName := type_name_of_bound
    have hcoherent := (CustomCodecs.coherent_empty order).registerAll hnames
    exact ⟨hcoherent.typeName_eq hb,
      CustomCodecs.codecOf?_eq_some_iff.2 ⟨name, hcoherent.name_of_host hb, hb⟩⟩
  · intro before b after hsplit
    by_cases hlater : ∃ x ∈ after, x.codec.hostType = b.codec.hostType ∨
        x.typeName = b.typeName ∨
          ((CustomCodecs.empty order).registerAll before).Takes b x.codec.hostType
    · exact .inr hlater
    · -- No later registration concerns the codec, so that it is kept by all of them.
      refine .inl ?_
      push Not at hlater
      have hkept : CustomCodecs.Kept ((CustomCodecs.empty order).registerAll before) b
          ((CustomCodecs.empty order).registerAll (before ++ b :: after)) := by
        rw [CustomCodecs.registerAll_append]
        exact (CustomCodecs.kept_register _ b).registerAll hlater
      rw [hsplit]
      exact ⟨hkept.codec?, hkept.codecOf?⟩

end Factory

/-! ### Tags -/

namespace Tags

/-- A codec for the records of a slot, under a name. -/
def tag (slot : Nat) (name : String) : RecordCodec :=
  ⟨slot, name, [], false, name, .restricted "list", none⟩

/-- The codec with what is told about its type. -/
def boundTag (slot : Nat) (name : String) : BoundCodec Entity :=
  ⟨(tag slot name).toCodec, (tag slot name).describe .empty⟩

/-- None of the tags is refused, whatever its name. -/
theorem bound_tags (tags : List (Nat × String)) :
    Factory.bound .empty (tags.map fun x => (tag x.1 x.2).toCodec) =
      tags.map fun x => boundTag x.1 x.2 := by
  induction tags with
  | nil => rfl
  | cons x tags ih =>
    have hbind : BoundCodec.bind (tag x.1 x.2).toCodec .empty = .ok (boundTag x.1 x.2) :=
      if_neg (fun hmisnamed => hmisnamed rfl)
    rw [List.map_cons, List.map_cons, Factory.bound_cons, hbind, ih]

/-- The two slots are two host types. -/
theorem slot_ne : Entity.slotType 0 ≠ Entity.slotType 1 := by decide

/-- A codec stays in force while one for another host type gets a new name. -/
theorem codecs_in_force_tags :
    (Factory.new (ω := Entity) .empty .inserted).customs = .empty .inserted ∧
    ((Factory.new .empty .inserted).registerCustoms ([(0, "Left"), (1, "Right"), (0, "Middle")].map
      fun x => (tag x.1 x.2).toCodec)).customs.codecOf? (Entity.slotType 1) =
        some (boundTag 1 "Right") := by
  refine ⟨rfl, ?_⟩
  obtain ⟨-, -, hkept⟩ := Factory.codecs_in_force
    (f := Factory.new (ω := Entity) .empty .inserted) rfl
    ([(0, "Left"), (1, "Right"), (0, "Middle")].map fun x => (tag x.1 x.2).toCodec)
  obtain ⟨-, hfound⟩ | ⟨x, hx, hlater⟩ := hkept [boundTag 0 "Left"] (boundTag 1 "Right")
    [boundTag 0 "Middle"] (bound_tags _)
  · exact hfound
  · obtain rfl := List.mem_singleton.1 hx
    obtain hhost | hname | ⟨-, htaken⟩ := hlater
    · exact absurd hhost slot_ne
    · exact absurd hname (by decide)
    · exact absurd htaken (by decide)

/-- A codec is lost, though none was registered for its host type or under its name after it, when
the host type whose name it took gets a new name. -/
theorem codecs_lost_tags (order : ScanOrder) :
    let f := (Factory.new .empty order).registerCustoms ([(0, "Tag"), (1, "Tag"), (0, "Other")].map
      fun x => (tag x.1 x.2).toCodec)
    f.customs.codec? "Tag" = none ∧ f.customs.codecOf? (Entity.slotType 1) = none := by
  have hcustoms := (Factory.new (ω := Entity) .empty order).customs_registerCustoms
    ([(0, "Tag"), (1, "Tag"), (0, "Other")].map fun x => (tag x.1 x.2).toCodec)
  have hbound : Factory.bound (Factory.new (ω := Entity) .empty order).registry
      ([(0, "Tag"), (1, "Tag"), (0, "Other")].map fun x => (tag x.1 x.2).toCodec) =
        [boundTag 0 "Tag", boundTag 1 "Tag", boundTag 0 "Other"] := bound_tags _
  rw [hbound] at hcustoms
  dsimp only
  rw [hcustoms]
  have htakes : ((CustomCodecs.empty order).register (boundTag 0 "Tag")).Takes (boundTag 1 "Tag")
      (Entity.slotType 0) := ⟨Ne.symm slot_ne, rfl⟩
  have hlost := CustomCodecs.register_taken (x := boundTag 0 "Other") htakes (by decide)
  exact hlost.2

end Tags

end SelfDescribing

