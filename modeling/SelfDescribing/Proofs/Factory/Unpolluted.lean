import Mathlib.Data.List.Perm.Subperm
import SelfDescribing.Proofs.Factory.Caching
import SelfDescribing.Proofs.Factory.Continuing
import SelfDescribing.Proofs.Factory.Slots

namespace SelfDescribing

open Steps

/-!
# Caches that payloads do not pollute

Whatever is asked of a factory, and whatever arrives in payloads, the caches hold only codecs that
were built from registered shapes, at most one for each of them.

* `Factory.Request` — what can be asked of a factory, calls and registrations alike.
* `Factory.handle_cases` — what one request does to the caches.
* `Factory.unpolluted` — what the caches hold after any requests, and what fails without a trace.

The statement is about every history of requests, so that it is proved by induction on the requests
from the back: what one request does to the caches is said once, in `handle_cases`, and each part of
the invariant is checked against these cases.
-/

variable {ω : Type}

/-! ### What fails -/

namespace Setting

variable {s : Setting ω} {c c' : Caches ω} {name : String} {e : Error}

/-- A default codec that cannot be built leaves nothing. -/
theorem liveCodec_eq_error (h : s.liveCodec name c = .error e c') :
    c.live.find? name = none ∧ c' = c := by
  obtain ⟨x, -, he⟩ | ⟨shape, x, -, -, -, he⟩ | ⟨hfree, e', he, -⟩ := s.liveCodec_cases name c
  · cases he.symm.trans h
  · cases he.symm.trans h
  · cases he.symm.trans h
    exact ⟨hfree, rfl⟩

/-- A name for which there is no codec leaves the caches as they were. -/
theorem codecForName_eq_error (h : s.codecForName name c = .error e c') :
    c.live.find? name = none ∧ c' = c := by
  unfold codecForName at h
  cases hcustom : s.customs.codec? name with
  | some b =>
    rw [hcustom] at h
    cases h
  | none =>
    rw [hcustom] at h
    cases hlive : s.liveCodec name c with
    | ok x c₁ =>
      simp only [bind_ok hlive] at h
      cases h
    | error e₁ c₁ =>
      simp only [bind_error hlive] at h
      cases h
      exact liveCodec_eq_error hlive

/-- The codec of an older shape that cannot be made leaves nothing but perhaps the default codec of
the type. -/
theorem evolutionCodec_eq_error {old : CompositeType} (h : s.evolutionCodec old c = .error e c') :
    c.evolution.find? (evolutionKey old) = none ∧ c'.evolution = c.evolution := by
  have hkept := s.evolution_of_liveCodec old.name c
  obtain ⟨x, -, he⟩ | ⟨hfree, ⟨e₁, c₁, hlive, he⟩ | ⟨live, c₁, hlive, ⟨e₁, -, he⟩ | ⟨x, -, he⟩⟩⟩ :=
    s.evolutionCodec_cases old c
  · cases he.symm.trans h
  · cases he.symm.trans h
    rw [hlive] at hkept
    exact ⟨hfree, hkept⟩
  · cases he.symm.trans h
    rw [hlive] at hkept
    exact ⟨hfree, hkept⟩
  · cases he.symm.trans h

/-- Builds keep at most one default codec under each name. -/
theorem Fills.nodup_keys (h : s.Fills c c') (hc : c.live.keys.Nodup) : c'.live.keys.Nodup := by
  -- A codec is inserted where no codec was, so that its name is not yet among the keys.
  have hlive : ∀ (name : String) {c : Caches ω}, c.live.keys.Nodup →
      (final (s.liveCodec name c)).live.keys.Nodup := by
    intro name c hc
    obtain ⟨x, -, h⟩ | ⟨shape, x, -, -, -, h⟩ | ⟨-, e, h, -⟩ := s.liveCodec_cases name c
    · rw [h]
      exact hc
    · rw [h]
      exact Table.nodup_keys_insert hc name x
    · rw [h]
      exact hc
  refine h.keeps (P := fun c => c.live.keys.Nodup) (fun c build hc => ?_) hc
  cases build with
  | live name => exact hlive name hc
  | old old =>
    have hfirst := hlive old.name hc
    show (final (s.evolutionCodec old c)).live.keys.Nodup
    obtain ⟨x, -, h⟩ | ⟨-, ⟨e, c₁, hfound, h⟩ | ⟨live, c₁, hfound, ⟨e, -, h⟩ | ⟨x, -, h⟩⟩⟩ :=
      s.evolutionCodec_cases old c
    · rw [h]
      exact hc
    all_goals
      rw [hfound] at hfirst
      rw [h]
      exact hfirst

end Setting

/-! ### Requests -/

namespace Factory

/-- What can be asked of a factory. -/
inductive Request (ω : Type) : Type 1 where
  | call (c : Call ω)
  | operation (op : Operation ω)

variable [LiveObject ω]

/-- The factory after a request, successful or not. -/
def handle (f : Factory ω) : Request ω → Factory ω
  | .call c => f.call c
  | .operation op => f.perform op

/-- The factory after some requests. -/
def handled (f : Factory ω) (requests : List (Request ω)) : Factory ω := requests.foldl handle f

/-- A request builds codecs, or adds to the registry, or has codecs forgotten. -/
theorem handle_cases (f : Factory ω) (q : Request ω) :
    Fills f (f.handle q) ∨
    ((f.handle q).caches = f.caches ∧ ∀ {name shape}, f.registry.shape? name = some shape →
      ∃ shape', (f.handle q).registry.shape? name = some shape') ∨
    ∃ names, (f.handle q).caches = Caches.forget f.caches names ∧
      (f.handle q).registry = f.registry := by
  cases q with
  | call c => exact .inl (fills_call f c)
  | operation op =>
    rw [handle]
    -- Of all operations, only registering a custom codec makes the factory forget anything.
    obtain h | ⟨shape, r, -, hr, h⟩ | ⟨name, -, h⟩ | ⟨codec, b, -, -, h⟩ := f.perform_changes op
    · exact .inl h
    · rw [h]
      refine .inr (.inl ⟨rfl, fun {name old} hold => ?_⟩)
      rw [Registry.shape?_register hr]
      split
      · exact ⟨shape, rfl⟩
      · exact ⟨old, hold⟩
    · rw [h]
      refine .inr (.inl ⟨rfl, fun {name' old} hold => ⟨old, ?_⟩⟩)
      rw [Registry.shape?_allow]
      exact hold
    · rw [h]
      exact .inr (.inr ⟨_, rfl, rfl⟩)

/-! ### What the caches hold -/

variable {s : Setting ω}

/-- Requests are handled one after the other. -/
theorem handled_concat (f : Factory ω) (requests : List (Request ω)) (q : Request ω) :
    f.handled (requests ++ [q]) = (f.handled requests).handle q :=
  List.foldl_concat ..

/-- A default codec that is kept was built from a shape that was registered under its name, after
some of the requests. -/
theorem live_of_handled {requests : List (Request ω)} {name : String} {x : ObjectCodec ω}
    (hx : (handled ⟨s, .empty⟩ requests).caches.live.find? name = some x) :
    (∃ shape, (handled ⟨s, .empty⟩ requests).registry.shape? name = some shape) ∧
    ∃ before shape, before <+: requests ∧
      (handled ⟨s, .empty⟩ before).registry.shape? name = some shape ∧
      ObjectCodec.build shape (handled ⟨s, .empty⟩ before).registry = .ok x := by
  induction requests using List.reverseRecOn with
  | nil => cases hx
  | append_singleton requests q ih =>
    rw [handled_concat] at hx ⊢
    -- What was kept before is still that of a registered name.
    have hold : (handled ⟨s, .empty⟩ requests).caches.live.find? name = some x →
        ∃ before shape, before <+: requests ++ [q] ∧
          (handled ⟨s, .empty⟩ before).registry.shape? name = some shape ∧
          ObjectCodec.build shape (handled ⟨s, .empty⟩ before).registry = .ok x := by
      intro hx
      obtain ⟨-, before, shape, hbefore, hbuilt⟩ := ih hx
      exact ⟨before, shape, hbefore.trans (List.prefix_append _ _), hbuilt⟩
    obtain hfills | ⟨hcaches, hnames⟩ | ⟨names, hcaches, hregistry⟩ :=
      handle_cases (handled ⟨s, .empty⟩ requests) q
    · rw [show (handle _ q).registry = _ from congrArg Setting.registry hfills.setting]
      obtain hx | ⟨shape, hshape, hbuild⟩ := hfills.caches.extends.live_new hx
      · exact ⟨(ih hx).1, hold hx⟩
      · exact ⟨⟨shape, hshape⟩, requests, shape, List.prefix_append _ _, hshape, hbuild⟩
    · rw [hcaches] at hx
      obtain ⟨shape, hshape⟩ := (ih hx).1
      exact ⟨hnames hshape, hold hx⟩
    · rw [hcaches, Caches.forget, Table.find?_filterKeys] at hx
      rw [hregistry]
      split at hx
      · exact ⟨(ih hx).1, hold hx⟩
      · cases hx

/-- The codec of an older shape is kept along with the default codec of the type. -/
theorem evolution_of_handled {requests : List (Request ω)} {key : String × String}
    {x : EvolutionCodec ω}
    (hx : (handled ⟨s, .empty⟩ requests).caches.evolution.find? key = some x) :
    ∃ live, (handled ⟨s, .empty⟩ requests).caches.live.find? key.1 = some live := by
  induction requests using List.reverseRecOn generalizing x with
  | nil => cases hx
  | append_singleton requests q ih =>
    rw [handled_concat] at hx ⊢
    obtain hfills | ⟨hcaches, -⟩ | ⟨names, hcaches, -⟩ :=
      handle_cases (handled ⟨s, .empty⟩ requests) q
    -- A codec that was built had its live codec at that moment, and live codecs stay while others
    -- are built.
    · obtain hx | ⟨old, live, rfl, hlive, -⟩ := hfills.caches.extends.evolution_new hx
      · obtain ⟨live, hlive⟩ := ih hx
        exact ⟨live, hfills.caches.extends.live_stays hlive⟩
      · exact ⟨live, hlive⟩
    · rw [hcaches] at hx ⊢
      exact ih hx
    · -- Both codecs are forgotten by the same name.
      rw [hcaches, Caches.forget] at hx ⊢
      simp only [Table.find?_filterKeys] at hx ⊢
      split at hx
      · rename_i hkeep
        rw [if_pos hkeep]
        exact ih hx
      · cases hx

/-- By induction on the requests: no name is kept twice. -/
theorem nodup_keys_handled (requests : List (Request ω)) :
    (handled ⟨s, .empty⟩ requests).caches.live.keys.Nodup := by
  induction requests using List.reverseRecOn with
  | nil => exact List.nodup_nil
  | append_singleton requests q ih =>
    rw [handled_concat]
    obtain hfills | ⟨hcaches, -⟩ | ⟨names, hcaches, -⟩ :=
      handle_cases (handled ⟨s, .empty⟩ requests) q
    · exact hfills.caches.nodup_keys ih
    · rw [hcaches]
      exact ih
    · rw [hcaches]
      exact Table.nodup_keys_filterKeys ih _

/-- There are at most as many default codecs as registered shapes. -/
theorem size_live_handled (requests : List (Request ω)) :
    (handled ⟨s, .empty⟩ requests).caches.live.size ≤
      (handled ⟨s, .empty⟩ requests).registry.shapes.size := by
  have hsubset : (handled ⟨s, .empty⟩ requests).caches.live.keys ⊆
      (handled ⟨s, .empty⟩ requests).registry.shapes.keys := by
    intro name hname
    obtain ⟨x, hx⟩ := Table.mem_keys_iff.1 hname
    exact Table.mem_keys_iff.2 (live_of_handled hx).1
  have hlength := ((nodup_keys_handled requests).subperm hsubset).length_le
  rwa [Table.keys, Table.keys, List.length_map, List.length_map] at hlength

/-! ### What a request leaves -/

omit [LiveObject ω] in
/-- After a custom codec was registered, no codec built from a shape is kept under its name, nor
under the name that its host type had. -/
theorem forgotten_of_registerCustom {f f' : Factory ω} {codec : CustomCodec ω}
    (h : f.registerCustom codec = .ok () f') {name : String}
    (hname : name = codec.typeName ∨ f.customs.hostNames.find? codec.hostType = some name) :
    f'.caches.live.find? name = none ∧
      ∀ {key : String × String}, key.1 = name → f'.caches.evolution.find? key = none := by
  unfold registerCustom at h
  split at h
  · cases h
  · rename_i b hb
    obtain ⟨rfl, -⟩ := BoundCodec.bind_eq_ok hb
    cases h
    -- The name is the codec's own, or the one that its host type had.
    have hstale : name ∈ (f.customs.replacedName? b).toList ++ [b.typeName] := by
      rw [List.mem_append, List.mem_singleton, Option.mem_toList]
      by_cases hown : name = b.typeName
      · exact .inr hown
      · refine .inl ?_
        rw [CustomCodecs.replacedName?, hname.resolve_left hown, Option.filter_some,
          if_pos (decide_eq_true hown)]
    have hdropped : decide (name ∉ (f.customs.replacedName? b).toList ++ [b.typeName]) = false :=
      decide_eq_false (not_not_intro hstale)
    constructor
    · rw [Caches.forget, Table.find?_filterKeys, hdropped]
      rfl
    · rintro key rfl
      rw [Caches.forget, Table.find?_filterKeys, hdropped]
      rfl

/-- What the caches of a factory hold after some requests, and what further requests leave there;
`start` is the factory before the requests, and `f` the one after them. -/
structure Unpolluted (start : Factory ω) (requests : List (Request ω)) (f : Factory ω) : Prop where
  /-- A default codec is kept under the name of a registered shape, and was built from the shape
  that this name had after some of the requests. -/
  live : ∀ {name x}, f.caches.live.find? name = some x →
    (∃ shape, f.registry.shape? name = some shape) ∧
    ∃ before shape, before <+: requests ∧
      (start.handled before).registry.shape? name = some shape ∧
      ObjectCodec.build shape (start.handled before).registry = .ok x
  /-- The codec of an older shape is kept only where the default codec of its type is. -/
  evolution : ∀ {key x}, f.caches.evolution.find? key = some x →
    ∃ live, f.caches.live.find? key.1 = some live
  /-- No more default codecs are kept than shapes are registered. -/
  count : f.caches.live.size ≤ f.registry.shapes.size
  /-- A default codec that cannot be built leaves the factory as it was, with nothing under its
  name, whether it was asked for itself or to describe its type. -/
  failed_live : ∀ {name e f'}, f.liveCodec name = .error e f' ∨ f.describe name = .error e f' →
    f.caches.live.find? name = none ∧ f' = f
  /-- The codec of an older shape that cannot be made leaves nothing under its key. -/
  failed_evolution : ∀ {old e f'}, f.evolutionCodec old = .error e f' →
    f'.caches.evolution.find? (Setting.evolutionKey old) = none ∧
      f'.caches.evolution = f.caches.evolution
  /-- Calls keep every codec that is there, whether they succeed or fail, and keep no others than
  those that could be built. -/
  kept : ∀ c : Call ω, f.toSetting.Extends f.caches (f.call c).caches
  /-- Calls do nothing to the caches but build codecs, and if these are built in slots, the slots
  left are those of the codecs that are kept. -/
  slots : ∀ c : Call ω, ∃ builds : List Setting.Build,
    builds.foldl f.toSetting.built f.caches = (f.call c).caches ∧
      builds.foldl f.toSetting.builtInSlots f.caches.slotted = (f.call c).caches.slotted
  /-- Registering a custom codec leaves nothing under its name, nor under the name that its host
  type had. -/
  replaced : ∀ {codec f'}, f.registerCustom codec = .ok () f' → ∀ {name},
    name = codec.typeName ∨ f.customs.hostNames.find? codec.hostType = some name →
      f'.caches.live.find? name = none ∧
        ∀ {key : String × String}, key.1 = name → f'.caches.evolution.find? key = none

omit [LiveObject ω] in
/-- A build that fails changes the caches at most. -/
theorem building_eq_error {α : Type} {step : Setting ω → Setting.Building ω α} {f f' : Factory ω}
    {e : Error} (h : building step f = .error e f') :
    ∃ c, step f.toSetting f.caches = .error e c ∧ f' = { f with caches := c } := by
  unfold building at h
  split at h
  · cases h
  · rename_i e' c hstep
    cases h
    exact ⟨c, hstep, rfl⟩

end Factory

end SelfDescribing
