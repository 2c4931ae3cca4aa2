import SelfDescribing.Entity.Record
import SelfDescribing.Proofs.Factory.Reachable
import SelfDescribing.Proofs.Factory.Reordering

namespace SelfDescribing

open Steps Exchange

/-!
# The order of fields

A payload may list the fields of a type in any order, and claim any descriptor for it: decoding
gives the same object, or an error of the same kind.

* `Factory.current_new`, `Factory.Current.perform` — the codecs that a factory keeps are current at
  first, and as long as the registry stays as it is.
* `Factory.decode_in_any_order` — the order of fields does not matter, if fingerprints tell the
  fields apart.
* `Pairs` — pairs of texts, whose order does not matter, except where the fields have one
  fingerprint in both orders.

The work is done in `Proofs/Factory/Reordering`, for reading without caches.  What is left is to
open both payloads and to show that the codecs kept do not get in the way, for which fingerprints
must tell the fields of the payload and of the codecs kept apart.
-/

variable {ω : Type}

/-! ### Codecs that are kept -/

namespace Factory

/-- A new factory keeps no codec. -/
theorem current_new (r : Registry ω) (order : ScanOrder) : (Factory.new r order).Current :=
  refl (r := (Factory.new r order).toSetting.Extends) .empty

/-- Codecs that are kept with their live codecs stay current. -/
theorem Current.forget {f : Factory ω} (hf : f.Current) (names : List String)
    {s : Setting ω} (hregistry : s.registry = f.registry) :
    s.Extends .empty (Caches.forget f.caches names) := by
  refine ⟨fun {name x} h => ?_, fun {key x} h => ?_, fun {name x} h => ?_, fun {key x} h => ?_⟩
  · cases h
  · cases h
  · rw [Caches.forget, Table.find?_filterKeys] at h
    split at h
    · obtain hempty | hbuilt := hf.live_new h
      · cases hempty
      · rw [hregistry]
        exact .inr hbuilt
    · cases h
  · -- A codec of an old shape goes with the live codec of its name, on which it is built.
    rw [Caches.forget, Table.find?_filterKeys] at h
    split at h
    · rename_i hkept
      obtain hempty | ⟨old, live, hkey, hlive, hmake⟩ := hf.evolution_new h
      · cases hempty
      · refine .inr ⟨old, live, hkey, ?_, by rwa [hregistry]⟩
        have hname : old.name = key.1 := congrArg Prod.fst hkey
        rw [Caches.forget, Table.find?_filterKeys, hname, if_pos hkept, ← hname]
        exact hlive
    · cases h

variable [LiveObject ω]

/-- Codecs that are kept stay current as long as the registry stays as it is. -/
theorem Current.perform {f : Factory ω} (hf : f.Current) {op : Operation ω}
    (hregistry : (f.perform op).registry = f.registry) : (f.perform op).Current := by
  -- Registering and allowing leave the registry as it is only where they change nothing.
  obtain ⟨hsetting, hextends⟩ | ⟨shape, r, -, -, h⟩ | ⟨name, -, h⟩ | ⟨codec, b, -, -, h⟩ :=
    f.perform_cases op
  · rw [Current, hsetting]
    exact trans_of f.toSetting.Extends hf hextends
  · rw [h] at hregistry ⊢
    cases hregistry
    exact hf
  · rw [h] at hregistry
    change f.registry.allow name = f.registry at hregistry
    rw [h, hregistry]
    exact hf
  · rw [h]
    exact hf.forget _ rfl

end Factory

variable [LiveObject ω]

/-! ### Payloads -/

namespace Factory

variable {f : Factory ω} {t : HostType} {bytes bytes' : List UInt8} {e e' : Envelope ω}

omit [LiveObject ω] in
/-- The same type is found at the root of payloads that differ in order and descriptors. -/
theorem rootType_relists (h : f.toSetting.Relists e.schema e'.schema e.body e'.body) :
    rootType e' = rootType e := by
  obtain ⟨body, schema⟩ := e
  obtain ⟨body', schema'⟩ := e'
  cases h with
  | leaf hleaf =>
    cases body with
    | list | map | described => cases hleaf
    | _ => rfl
  | list | map => rfl
  | unlisted hfind hfind' => simp only [rootType, hfind, hfind']
  | custom hfind hfind' hname | restricted hfind hfind' hname | fields hfind hfind' hname
  | misfit hfind hfind' hname =>
    rw [rootType_of_find hfind, rootType_of_find hfind']
    exact congrArg _ hname

/-- Payloads that differ in the order of fields and in descriptors alone are decoded alike. -/
theorem alike_decode (hcurrent : f.Current) (hevolution : f.config.evolution = true)
    (hcustoms : f.toSetting.CustomsMatch e.schema e'.schema)
    (hreparses : ∀ type ∈ e.schema.types, ∀ {live},
      f.toSetting.buildLive type.name = .ok live → live.Reparses)
    (hparse : Envelope.parse bytes f.config.maxDepth = .ok e)
    (hparse' : Envelope.parse bytes' f.config.maxDepth = .ok e')
    (hapart : Setting.TellsApart (f.Observes e.schema))
    (hapart' : Setting.TellsApart (f.Observes e'.schema))
    (hrelists : f.toSetting.Relists e.schema e'.schema e.body e'.body) :
    Alike (outcome (decode t bytes f)) (outcome (decode t bytes' f)) := by
  -- Both decode as with codecs built anew, and these read the two payloads alike.
  have hdistinct := Envelope.distinct_of_parse hparse
  rw [outcome_decode hcurrent hparse hapart, outcome_decode hcurrent hparse' hapart', decodes,
    decodes, openPayload_of_parse hparse, openPayload_of_parse hparse', rootType_relists hrelists]
  cases f.nameOfHost t with
  | error err => exact .error rfl
  | ok expected =>
    cases rootType e with
    | error err => exact .error rfl
    | ok found =>
      show Alike ((if found ≠ expected then _ else .ok e) >>= _)
        ((if found ≠ expected then _ else .ok e') >>= _)
      split
      · exact .error rfl
      · have hread := Setting.alike_reads hevolution hcustoms hdistinct hreparses
          f.config.maxDepth hrelists
        exact hread.bind fun object _ => .refl _

/-- The order in which fields are listed does not matter.  A payload that lists the live fields of a
type in any order can be read, and is read as if it listed them in the live order.  Decoding gives
the same for payloads that list the fields of their types in other orders and claim other
descriptors, as long as the codecs that are kept are current and no two old shapes that come
together have one fingerprint but different fields. -/
theorem decode_in_any_order :
    (∀ {shape : TypeShape ω} {r : Registry ω} {live : ObjectCodec ω} {old : CompositeType},
      ObjectCodec.build shape r = .ok live → shape.kind.isConcrete = true → live.Reparses →
      old.fields.Perm live.composite.fields →
        ∃ x, EvolutionCodec.make old live r = .ok x ∧ x.ReadsLike live) ∧
    ∀ {f : Factory ω} {t : HostType} {bytes bytes' : List UInt8} {e e' : Envelope ω},
      f.Current → f.config.evolution = true → f.toSetting.CustomsMatch e.schema e'.schema →
      (∀ type ∈ e.schema.types, ∀ {live},
        f.toSetting.buildLive type.name = .ok live → live.Reparses) →
      Envelope.parse bytes f.config.maxDepth = .ok e →
      Envelope.parse bytes' f.config.maxDepth = .ok e' →
      Setting.TellsApart (f.Observes e.schema) → Setting.TellsApart (f.Observes e'.schema) →
      f.toSetting.Relists e.schema e'.schema e.body e'.body →
        Alike (outcome (decode t bytes f)) (outcome (decode t bytes' f)) := by
  constructor
  · intro shape r live old hbuild hconcrete hreparses hperm
    exact EvolutionCodec.readsLike_of_perm hbuild hconcrete hreparses hperm
  · intro f t bytes bytes' e e' hcurrent hevolution hcustoms hreparses hparse hparse' hapart hapart'
      hrelists
    exact alike_decode hcurrent hevolution hcustoms hreparses hparse hparse' hapart hapart' hrelists

end Factory

/-! ### Pairs of texts -/

namespace Pairs

/-- The name of the right part.  An odd one contains what a fingerprint puts between two fields. -/
def rightName (odd : Bool) : String := if odd then "left:string!\x00left" else "right"

/-- Pairs, records of two texts. -/
def shape (odd : Bool) : RecordShape :=
  ⟨"Pair", .concrete 0, [⟨"left", .primitive .string, false, true, "left"⟩,
      ⟨rightName odd, .primitive .string, false, true, rightName odd⟩],
    [⟨[⟨"left", .primitive .string, false, none⟩,
      ⟨rightName odd, .primitive .string, false, none⟩], .plain, false, none⟩], [], false⟩

/-- The fields of pairs. -/
def fields (odd : Bool) : List Field :=
  [⟨"left", "string", true⟩, ⟨rightName odd, "string", true⟩]

/-- A pair. -/
def pair (odd : Bool) (left right : String) : Entity :=
  .record 0 [("left", .string left), (rightName odd, .string right)]

/-- The live descriptor of pairs. -/
def live (odd : Bool) : Descriptor := objectDescriptor "Pair" (fields odd)

/-- Another descriptor. -/
def other : Descriptor := ⟨"pair", none⟩

/-- What a payload tells of pairs, which may have their parts swapped. -/
def told (odd : Bool) (d : Descriptor) (swapped : Bool) : CompositeType :=
  ⟨"Pair", none, [], d, if swapped then (fields odd).reverse else fields odd⟩

/-- The payload of a pair, which may have its parts swapped. -/
def envelope (odd : Bool) (d : Descriptor) (swapped : Bool) : Envelope Entity :=
  ⟨d.describe (.list (if swapped then [.string "r", .string "l"] else [.string "l", .string "r"])),
    ⟨[.composite (told odd d swapped)]⟩⟩

/-- The registry of pairs. -/
def registry (odd : Bool) : Registry Entity :=
  ⟨⟨[("Pair", (shape odd).toShape)]⟩, ⟨[(Entity.slotType 0, "Pair")]⟩, []⟩

/-- A factory of pairs. -/
def factory (odd : Bool) : Factory Entity := .new (registry odd) .inserted

/-- How pairs are constructed. -/
def constructor (odd : Bool) : Constructor Entity :=
  (shape odd).toShape.constructors.head (List.cons_ne_nil _ _)

/-- The default codec of pairs. -/
def codec (odd : Bool) : ObjectCodec Entity :=
  ⟨some (Entity.slotType 0), told odd (live odd) false,
    (shape odd).toShape.properties.map .ofProperty, some (constructor odd)⟩

/-- The declared type of both parts reads back from its text. -/
theorem parse_string : FieldType.parse "string" = .primitive .string := by decide +kernel

/-- The codec of pairs, built from the shape. -/
theorem build_pair (odd : Bool) :
    ObjectCodec.build (shape odd).toShape (registry odd) = .ok (codec odd) := by
  have hresolve : (shape odd).toShape.resolve (registry odd) =
      .ok ⟨some (constructor odd), (shape odd).toShape.properties⟩ := by cases odd <;> rfl
  have hprovides : (registry odd).provides "Pair" = [] := Registry.provides_eq_nil rfl rfl
  rw [ObjectCodec.build_of_resolve hresolve hprovides]
  rfl

/-- The types of both fields read back from their texts. -/
theorem reparses_pair (odd : Bool) : (codec odd).Reparses := by
  refine ObjectCodec.reparses_of_build (build_pair odd) ?_
  show ∀ p ∈ [_, _], _
  simp only [List.forall_mem_cons]
  exact ⟨parse_string, parse_string, fun p hp => nomatch hp⟩

/-- The tag of the payload finds what it tells of pairs. -/
theorem find_told (odd : Bool) (d : Descriptor) (swapped : Bool) :
    (envelope odd d swapped).schema.findByDescriptor? (d.toValue : Value Entity) =
      some (.composite (told odd d swapped)) :=
  List.find?_cons_of_pos (Descriptor.admits_toValue d)

/-- The parts of a pair have different names, odd or not. -/
theorem distinct_told (odd : Bool) (d : Descriptor) (swapped : Bool) :
    (envelope odd d swapped).schema.Distinct := by
  intro type htype
  obtain rfl := List.mem_singleton.1 htype
  show ((if swapped then (fields odd).reverse else fields odd).map (·.name)).Nodup
  cases odd <;> cases swapped <;> decide

/-- The payload with the live descriptor can be written. -/
theorem toBytes_live : (envelope false (live false) false).toBytes =
    .ok (header ++ (envelope false (live false) false).toValue.encode.bytes) := by
  refine Envelope.toBytes_eq_ok_iff.2 ⟨Option.isNone_iff_eq_none.1 ?_, rfl⟩
  decide +kernel

/-- The payload with another descriptor can be written, in either order. -/
theorem toBytes_other (odd swapped : Bool) : (envelope odd other swapped).toBytes =
    .ok (header ++ (envelope odd other swapped).toValue.encode.bytes) := by
  refine Envelope.toBytes_eq_ok_iff.2 ⟨Option.isNone_iff_eq_none.1 ?_, rfl⟩
  cases odd <;> cases swapped <;> decide +kernel

/-- The payload with the live descriptor is nested within the usual limit. -/
theorem nesting_live : (envelope false (live false) false).toValue.nesting ≤ 64 := by
  decide +kernel

/-- The payload with another descriptor is nested within the usual limit. -/
theorem nesting_other (odd swapped : Bool) :
    (envelope odd other swapped).toValue.nesting ≤ 64 := by
  cases odd <;> cases swapped <;> decide +kernel

/-- Payloads of a pair, one with its parts swapped, differ in order and descriptor alone. -/
theorem relists_swapped (odd : Bool) (d d' : Descriptor) {s : Setting Entity}
    {order : ScanOrder} (hcustoms : s.customs = .empty order) :
    s.Relists (envelope odd d false).schema (envelope odd d' true).schema
      (envelope odd d false).body (envelope odd d' true).body := by
  have hcustom : s.customs.codec? (told odd d false).name = none := by
    rw [hcustoms]
    rfl
  have hitems : List.Forall₂
      (s.Relists (envelope odd d false).schema (envelope odd d' true).schema)
      [.string "l", .string "r"] [.string "l", .string "r"] :=
    .cons (.leaf rfl) (.cons (.leaf rfl) .nil)
  exact .fields (find_told odd d false) (find_told odd d' true) rfl hcustom rfl rfl hitems
    (.swap _ _ _)

/-- A new factory is shown one shape of pairs by each payload, so that there is nothing to confuse.
-/
theorem tellsApart_told (odd : Bool) (d : Descriptor) (swapped : Bool) :
    Setting.TellsApart ((factory odd).Observes (envelope odd d swapped).schema) := by
  have hone : ∀ {old}, (factory odd).Observes (envelope odd d swapped).schema old →
      old = told odd d swapped := by
    rintro old (hlisted | ⟨key, x, hkept, -⟩)
    · exact TypeNotation.composite.inj (List.mem_singleton.1 hlisted)
    · cases hkept
  intro old old' hold hold' _
  rw [hone hold, hone hold']

end Pairs

namespace Factory

open Pairs

/-- Pairs with their parts swapped are read like pairs, and decoded like them. -/
theorem decode_in_any_order_pair :
    (∃ x, EvolutionCodec.make (told false other true) (codec false) (registry false) = .ok x ∧
      x.ReadsLike (codec false)) ∧
    ∃ bytes bytes', (envelope false (live false) false).toBytes = .ok bytes ∧
      (envelope false other true).toBytes = .ok bytes' ∧
      Alike (outcome (decode (Entity.slotType 0) bytes (factory false)))
        (outcome (decode (Entity.slotType 0) bytes' (factory false))) := by
  obtain ⟨hread, hdecode⟩ := @decode_in_any_order Entity _
  refine ⟨hread (build_pair false) rfl (reparses_pair false) (.swap _ _ _), _, _, toBytes_live,
    toBytes_other false true, ?_⟩
  have hbuild : (factory false).toSetting.buildLive "Pair" = .ok (codec false) := build_pair false
  refine hdecode (current_new _ _) rfl (fun b hb => nomatch hb) ?_
    (Envelope.parse_toBytes toBytes_live (distinct_told _ _ _) nesting_live)
    (Envelope.parse_toBytes (toBytes_other false true) (distinct_told _ _ _)
      (nesting_other false true))
    (tellsApart_told _ _ _) (tellsApart_told _ _ _) (relists_swapped _ _ _ rfl)
  intro type htype live hlive
  obtain rfl := List.mem_singleton.1 htype
  cases hbuild.symm.trans hlive
  exact reparses_pair false

end Factory

/-! ### Fields with one fingerprint -/

namespace Pairs

/-- A factory of odd pairs that was asked for the codec of an older shape of them. -/
def asked : Factory Entity := (factory true).perform (.evolutionCodec (told true other false))

/-- The factory keeps codecs of its own registry only. -/
theorem current_asked : asked.Current :=
  (Factory.current_new _ _).perform (congrArg Setting.registry
    ((Factory.fills_building fun s => s.fills_evolutionCodec _).to_final (factory true)).setting)

/-- Odd pairs have one fingerprint in both orders. -/
theorem key_told (d d' : Descriptor) (swapped : Bool) :
    Setting.evolutionKey (told true d swapped) = Setting.evolutionKey (told true d' false) := by
  have hbytes : fingerprintBytes "Pair" (fields true).reverse =
      fingerprintBytes "Pair" (fields true) := by decide
  cases swapped with
  | false => rfl
  | true =>
    show ("Pair", fingerprint "Pair" (fields true).reverse) =
      ("Pair", fingerprint "Pair" (fields true))
    rw [fingerprint, fingerprint, hbytes]

/-- The codec that was asked for is kept, and it is the one for both orders. -/
theorem asked_keeps (d : Descriptor) (swapped : Bool) :
    asked.toSetting = (factory true).toSetting ∧
      asked.caches.live.find? "Pair" = some (codec true) ∧
      ∃ x, EvolutionCodec.make (told true other false) (codec true) (registry true) = .ok x ∧
        asked.caches.evolution.find? (Setting.evolutionKey (told true d swapped)) = some x := by
  have hbuild : (factory true).toSetting.buildLive "Pair" = .ok (codec true) := build_pair true
  have hempty : (factory true).toSetting.Keeps (fun _ => True) .empty :=
    ⟨refl (r := (factory true).toSetting.Extends) .empty, fun _ => trivial⟩
  have hlive := eq_of_like
    (((factory true).toSetting.simulates_liveCodec (fun _ => True) "Pair").like hempty)
  have hlive' := eq_ok_of_outcome (hlive.trans hbuild)
  obtain ⟨x, hmake⟩ := EvolutionCodec.make_of_perm (build_pair true) (reparses_pair true) rfl
    (.refl (told true other false).fields)
  -- The one call that was made built the codec and kept it under the fingerprint of the other
  -- order.
  have hasked : asked = ⟨(factory true).toSetting,
      final ((factory true).toSetting.evolutionCodec (told true other false) .empty)⟩ :=
    Factory.final_building _ _
  obtain ⟨y, hy, -⟩ | ⟨-, ⟨e, c, hfails, -⟩ | ⟨k, c, hk, ⟨e, hfails, -⟩ | ⟨y, hy, he⟩⟩⟩ :=
    (factory true).toSetting.evolutionCodec_cases (told true other false) .empty
  · cases hy
  · cases hlive'.symm.trans hfails
  · cases hlive'.symm.trans hk
    cases hmake.symm.trans hfails
  · have hfound := Setting.find?_of_liveCodec hk
    cases hlive'.symm.trans hk
    cases hmake.symm.trans hy
    rw [hasked, he]
    refine ⟨rfl, hfound, x, hmake, ?_⟩
    show (Table.insert _ (Setting.evolutionKey (told true other false)) x).find? _ = _
    rw [Table.find?_insert, key_told d other swapped, if_pos rfl]

/-- A pair is constructed from its parts in the order of its own fields. -/
theorem readNamed_pair (schema : Schema) (left right : String) :
    (constructor true).readNamed schema ((fields true).zip [.string left, .string right]) =
      pure (pair true left right) := by
  have hread : ∀ name text : String,
      (PropertyCodec.ofField ⟨name, "string", true⟩).read schema (.string text : Value Entity) =
        pure (.string text) := by
    intro name text
    show readTyped schema name (FieldType.parse "string") (.string text) = _
    rw [parse_string]
    rfl
  have hleft : readNamed schema ((fields true).zip [.string left, .string right]) "left" =
      pure (.string left : Value Entity) := hread "left" left
  have hright : readNamed schema ((fields true).zip [.string left, .string right])
      (rightName true) = pure (.string right : Value Entity) := hread (rightName true) right
  show (["left", rightName true].mapM _ >>= fun args => _) = _
  rw [List.mapM_cons, List.mapM_cons, List.mapM_nil, hleft, hright]
  rfl

/-- A codec made for the live order takes the items by their positions in this order. -/
theorem read_positions {x : EvolutionCodec Entity}
    (hmake : EvolutionCodec.make (told true other false) (codec true) (registry true) = .ok x)
    (schema : Schema) (left right : String) :
    (Codec.evolution x).read schema (.list [.string left, .string right]) =
      pure (pair true left right) := by
  have hparams : ((constructor true).params.map (·.name)).Nodup :=
    (ObjectCodec.params_of_build (build_pair true) rfl).1
  have hpairs : (told true other false).fields =
      ((fields true).zip [(.string left : Value Entity), .string right]).map (·.1) := rfl
  exact (EvolutionCodec.read_named hmake rfl hparams hpairs schema).trans
    (readNamed_pair schema left right)

/-- The parts of an odd pair are taken for each other if they are swapped. -/
theorem readWithin_asked (swapped : Bool) :
    outcome (asked.toSetting.readWithin (envelope true other swapped).schema
      asked.config.maxDepth (envelope true other swapped).body asked.caches) =
        .ok (if swapped then pair true "r" "l" else pair true "l" "r") := by
  obtain ⟨hsetting, hlive, x, hmake, hkept⟩ := asked_keeps other swapped
  have hconfig : asked.config = .default := congrArg Setting.config hsetting
  have hcustom : asked.customs.codec? "Pair" = none := by
    rw [hsetting]
    rfl
  have hother :
      (codec true).composite.descriptor.admits (other.toValue : Value Entity) = false := by
    decide +kernel
  -- The codec that is kept was made for the live order, whichever order the payload lists.
  have hreader := Setting.readerFor_kept (congrArg Config.evolution hconfig)
    (find_told true other swapped) hcustom hlive hother hkept
  rw [hconfig]
  show outcome ((asked.toSetting.readerFor (envelope true other swapped).schema other.toValue >>=
    fun codec => _) _) = _
  rw [bind_ok hreader]
  cases swapped
  · show outcome (Exchange.run _ ((Codec.evolution x).read _
      (.list [.string "l", .string "r"])) _) = _
    rw [read_positions hmake]
    rfl
  · show outcome (Exchange.run _ ((Codec.evolution x).read _
      (.list [.string "r", .string "l"])) _) = _
    rw [read_positions hmake]
    rfl

/-- The payload with swapped parts is decoded as a pair with its parts taken for each other. -/
theorem decode_asked (swapped : Bool) :
    outcome (Factory.decode (Entity.slotType 0)
      (header ++ (envelope true other swapped).toValue.encode.bytes) asked) =
        .ok (if swapped then pair true "r" "l" else pair true "l" "r") := by
  obtain ⟨hsetting, -⟩ := asked_keeps other swapped
  have hname : asked.nameOfHost (Entity.slotType 0) = .ok "Pair" := by
    show asked.toSetting.nameOfHost _ = _
    rw [hsetting]
    rfl
  have hparse : Envelope.parse (header ++ (envelope true other swapped).toValue.encode.bytes)
      asked.config.maxDepth = .ok (envelope true other swapped) := by
    rw [show asked.config = .default from congrArg Setting.config hsetting]
    exact Envelope.parse_toBytes (toBytes_other true swapped) (distinct_told _ _ _)
      (nesting_other true swapped)
  have hroot : Factory.rootType (envelope true other swapped) = .ok "Pair" :=
    Factory.rootType_of_find (find_told _ _ _)
  have hread := readWithin_asked swapped
  cases swapped
  · obtain ⟨g, hg⟩ := @Factory.decode_of_outcome Entity _ asked _ _ (pair true "l" "r") "Pair"
      hname hparse hroot hread
    exact congrArg outcome hg
  · obtain ⟨g, hg⟩ := @Factory.decode_of_outcome Entity _ asked _ _ (pair true "r" "l") "Pair"
      hname hparse hroot hread
    exact congrArg outcome hg

/-- Where a codec is kept for another order with the same fingerprint, all else holds but the order
matters. -/
theorem not_alike_decode_asked :
    asked.Current ∧
    asked.toSetting.Relists (envelope true other false).schema (envelope true other true).schema
      (envelope true other false).body (envelope true other true).body ∧
    ∃ bytes bytes', (envelope true other false).toBytes = .ok bytes ∧
      (envelope true other true).toBytes = .ok bytes' ∧
      ¬ Alike (outcome (Factory.decode (Entity.slotType 0) bytes asked))
        (outcome (Factory.decode (Entity.slotType 0) bytes' asked)) := by
  have hcustoms : asked.customs = .empty .inserted :=
    congrArg Setting.customs (asked_keeps other false).1
  refine ⟨current_asked, relists_swapped true other other hcustoms, _, _, toBytes_other true false,
    toBytes_other true true, ?_⟩
  rw [decode_asked, decode_asked]
  intro h
  have hsame := h.eq_of_ok
  simp [pair] at hsame

end Pairs

end SelfDescribing
