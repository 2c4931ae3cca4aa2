import SelfDescribing.Proofs.Factory.Uncached
import SelfDescribing.Proofs.Table

namespace SelfDescribing

open Steps

/-!
# Slots of codecs

A cache may keep slots: a slot is made before its codec is built, is filled when the build
succeeds, and is taken out again when the build fails.  Such caches give the same codecs and errors
as caches of finished codecs, and never leave an empty slot behind.

* `SlottedCaches.buildOnce` — get the codec under a key, or build it in a slot.
* `Setting.slotted_liveCodec`, `Setting.slotted_evolutionCodec` — building in slots and without.
* `Setting.slotted_builds` — any number of builds.

The caches with slots are a second implementation.  It is related to the first one by
`Caches.slotted`, which puts each finished codec into a slot, and each operation is shown to commute
with it.
-/

/-! ### Building in slots -/

variable {ω : Type}

/-- Caches with a slot for each codec that is built, or being built. -/
structure SlottedCaches (ω : Type) where
  live : Table String (Option (ObjectCodec ω))
  evolution : Table (String × String) (Option (EvolutionCodec ω))

/-- Caches of finished codecs, with each codec in a slot. -/
def Caches.slotted (c : Caches ω) : SlottedCaches ω := ⟨c.live.map some, c.evolution.map some⟩

namespace SlottedCaches

variable {κ γ : Type} [DecidableEq κ]

/-- Take the slot under a key out, if it is still empty. -/
def dropEmpty (t : Table κ (Option γ)) (key : κ) : Table κ (Option γ) :=
  match t.find? key with
  | some none => t.erase key
  | _ => t

/-- Get the codec under a key of one of the two caches, or build it.  A slot is made if there is
none, filled if the build succeeds, and taken out if the build fails and the slot is empty. -/
def buildOnce (cache : SlottedCaches ω → Table κ (Option γ))
    (update : SlottedCaches ω → Table κ (Option γ) → SlottedCaches ω) (key : κ)
    (build : EStateM Error (SlottedCaches ω) γ) : EStateM Error (SlottedCaches ω) γ := fun c =>
  match (cache c).find? key with
  | some (some x) => .ok x c
  | slot =>
    let made := if slot.isSome then c else update c ((cache c).insert key none)
    match build made with
    | .ok x c => .ok x (update c ((cache c).insert key (some x)))
    | .error e c => .error e (update c (dropEmpty (cache c) key))

/-! ### One slot -/

section BuildOnce

variable {cache : SlottedCaches ω → Table κ (Option γ)}
  {update : SlottedCaches ω → Table κ (Option γ) → SlottedCaches ω} {key : κ}
  {build : EStateM Error (SlottedCaches ω) γ} {c : SlottedCaches ω} {t : Table κ γ}

/-- A slot that is filled gives what it holds, and nothing is built. -/
theorem buildOnce_of_filled {x : γ} (hcache : cache c = t.map some) (hfind : t.find? key = some x) :
    buildOnce cache update key build c = .ok x c := by
  have hfilled : (cache c).find? key = some (some x) := by rw [hcache, Table.find?_map, hfind]; rfl
  simp only [buildOnce, hfilled]

/-- Where there is no slot, one is made, and it is filled or taken out by how the build ends. -/
theorem buildOnce_of_free (hcache : cache c = t.map some) (hfree : t.find? key = none) :
    buildOnce cache update key build c =
      match build (update c ((t.map some).insert key none)) with
      | .ok x c => .ok x (update c ((cache c).insert key (some x)))
      | .error e c => .error e (update c (dropEmpty (cache c) key)) := by
  have hnone : (cache c).find? key = none := by rw [hcache, Table.find?_map, hfree]; rfl
  simp only [buildOnce, hnone, Option.isSome_none, Bool.false_eq_true, if_false]
  rw [hcache]

/-- A slot that was made empty and then filled is a slot filled at once. -/
theorem insert_of_made (t : Table κ γ) (key : κ) (x : γ) :
    ((t.map some).insert key none).insert key (some x) = (t.insert key x).map some := by
  rw [Table.insert_insert, Table.insert_map]

/-- A slot that was made and not filled is taken out without a trace. -/
theorem dropEmpty_of_made (hfree : t.find? key = none) :
    dropEmpty ((t.map some).insert key none) key = t.map some := by
  have hempty : ((t.map some).insert key none).find? key = some none := by
    rw [Table.find?_insert, if_pos rfl]
  have hnone : (t.map some).find? key = none := by rw [Table.find?_map, hfree]; rfl
  rw [dropEmpty, hempty]
  exact Table.erase_insert hnone none

end BuildOnce

end SlottedCaches

namespace Setting

open SlottedCaches

/-- The default codec of a registered type name, built in a slot. -/
def liveInSlots (s : Setting ω) (name : String) : EStateM Error (SlottedCaches ω) (ObjectCodec ω) :=
  buildOnce SlottedCaches.live (fun c live => { c with live := live }) name do
    match s.buildLive name with
    | .error e => throw e
    | .ok x => return x

/-- The codec that reads an older shape of a registered type, built in a slot. -/
def evolutionInSlots (s : Setting ω) (old : CompositeType) :
    EStateM Error (SlottedCaches ω) (EvolutionCodec ω) :=
  buildOnce SlottedCaches.evolution (fun c evolution => { c with evolution := evolution })
    (evolutionKey old) do
      let live ← s.liveInSlots old.name
      match EvolutionCodec.make old live s.registry with
      | .error e => throw e
      | .ok x => return x

/-- The slots after a build, successful or not. -/
def builtInSlots (s : Setting ω) (c : SlottedCaches ω) : Build → SlottedCaches ω
  | .live name => final (s.liveInSlots name c)
  | .old old => final (s.evolutionInSlots old c)

/-- Building a default codec in a slot, whatever slots there are for older shapes. -/
theorem liveInSlots_of_live (s : Setting ω) (name : String) {c : Caches ω}
    (made : SlottedCaches ω) (hmade : made.live = c.live.map some) :
    s.liveInSlots name made =
      viewed (fun c => { made with live := c.live.map some }) (s.liveCodec name c) := by
  have hsame : made = { made with live := c.live.map some } := by rw [← hmade]
  obtain ⟨x, hfind, h⟩ | ⟨shape, x, hfree, hshape, hbuild, h⟩ | ⟨hfree, e, h, hfails⟩ :=
    s.liveCodec_cases name c
  · rw [liveInSlots, buildOnce_of_filled hmade hfind, h, viewed, ← hsame]
  · have hlive : s.buildLive name = .ok x := (buildLive_of_shape hshape).trans hbuild
    rw [liveInSlots, buildOnce_of_free hmade hfree, h]
    simp only [hlive, pure_apply, viewed, insert_of_made]
  · have hlive : s.buildLive name = .error e := by
      obtain ⟨hshape, rfl⟩ | ⟨shape, hshape, hbuild⟩ := hfails
      · rw [buildLive, hshape]
      · exact (buildLive_of_shape hshape).trans hbuild
    rw [liveInSlots, buildOnce_of_free hmade hfree, h]
    simp only [hlive, throw_apply, viewed, dropEmpty_of_made hfree]

/-- Default codecs built in slots are those that are built without slots. -/
theorem slotted_liveCodec (s : Setting ω) (name : String) (c : Caches ω) :
    s.liveInSlots name c.slotted = viewed Caches.slotted (s.liveCodec name c) := by
  have hkept := s.evolution_of_liveCodec name c
  rw [liveInSlots_of_live s name c.slotted rfl]
  cases h : s.liveCodec name c with
  | ok x c' =>
    rw [h] at hkept
    have hkept' : c'.evolution = c.evolution := hkept
    simp only [viewed, Caches.slotted, hkept']
  | error e c' =>
    rw [h] at hkept
    have hkept' : c'.evolution = c.evolution := hkept
    simp only [viewed, Caches.slotted, hkept']

/-- The slot of an older shape is there while the default codec of its type is built in another
slot. -/
theorem slotted_evolutionCodec (s : Setting ω) (old : CompositeType) (c : Caches ω) :
    s.evolutionInSlots old c.slotted = viewed Caches.slotted (s.evolutionCodec old c) := by
  obtain ⟨x, hfind, h⟩ | ⟨hfree, hbuild⟩ := s.evolutionCodec_cases old c
  · rw [evolutionInSlots, buildOnce_of_filled (t := c.evolution) rfl hfind, h]
    rfl
  -- The slot is made before the live codec is asked for, and dropped if none is built for it.
  · have hkept := s.evolution_of_liveCodec old.name c
    have hlive := s.liveInSlots_of_live old.name (c := c)
      { c.slotted with evolution := (c.evolution.map some).insert (evolutionKey old) none } rfl
    rw [evolutionInSlots, buildOnce_of_free (t := c.evolution) rfl hfree]
    obtain ⟨e, c₁, hfound, h⟩ | ⟨live, c₁, hfound, ⟨e, hmake, h⟩ | ⟨x, hmake, h⟩⟩ := hbuild
    · rw [hfound] at hkept hlive
      have hkept' : c₁.evolution = c.evolution := hkept
      rw [h, bind_error hlive]
      simp only [viewed, dropEmpty_of_made hfree, Caches.slotted, hkept']
    · rw [hfound] at hkept hlive
      have hkept' : c₁.evolution = c.evolution := hkept
      rw [h, bind_ok hlive, hmake]
      simp only [throw_apply, viewed, dropEmpty_of_made hfree, Caches.slotted, hkept']
    · rw [hfound] at hkept hlive
      have hkept' : c₁.evolution = c.evolution := hkept
      rw [h, bind_ok hlive, hmake]
      simp only [pure_apply, viewed, insert_of_made, Caches.slotted, hkept']

/-- Builds leave the same codecs with slots and without, and no slot empty. -/
theorem slotted_builds (s : Setting ω) (builds : List Build) (c : Caches ω) :
    builds.foldl s.builtInSlots c.slotted = (builds.foldl s.built c).slotted := by
  induction builds generalizing c with
  | nil => rfl
  | cons build builds ih =>
    have hbuilt : s.builtInSlots c.slotted build = (s.built c build).slotted := by
      cases build with
      | live name => rw [builtInSlots, slotted_liveCodec, final_viewed, built]
      | old old => rw [builtInSlots, slotted_evolutionCodec, final_viewed, built]
    rw [List.foldl_cons, List.foldl_cons, hbuilt, ih]

end Setting

end SelfDescribing
