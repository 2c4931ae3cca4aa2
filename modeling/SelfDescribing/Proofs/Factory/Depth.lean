import SelfDescribing.Proofs.Envelope.Nesting
import SelfDescribing.Proofs.Factory.RoundTrip

namespace SelfDescribing

open Steps

/-!
# How deep payloads nest

Writing counts the objects in each other, and parsing the described values, maps and lists, those
of the envelope and of the schema included.  The two share a limit, but neither keeps the other.

* `Envelope.nesting_toValue` — how deep a payload nests.
* `Factory.parse_encode` — which limits an encoded payload exceeds when it is parsed.
* `Boxes.not_parse_encode_lists` — a box that is written within a limit and exceeds it when it is
  parsed.

The nesting of a payload is computed from its body and its schema, and the limit is compared with
it.  Writing counts only objects that stand in each other, so that lists alone can exceed the limit
of the reader.
-/

variable {ω : Type}

/-- A payload that tells a type nests two levels deeper than its body and its schema, whichever is
deeper. -/
theorem Envelope.nesting_toValue {e : Envelope ω} (h : e.schema.types ≠ []) :
    e.toValue.nesting = max e.body.nesting (if e.schema.listsFields then 8 else 7) + 2 := by
  rw [Envelope.nesting_eq_max, Schema.nesting_toValue, if_neg h]

/-! ### Encoded payloads -/

variable [LiveObject ω]

/-- Where writing an object succeeds, its type is told. -/
theorem Setting.types_of_writeWithin {s : Setting ω} {room : Nat} {q : WriteRequest ω}
    {c c' : WriteContext ω} {v : Value ω} (h : s.writeWithin room q c = .ok v c') :
    c'.types ≠ [] := by
  cases room with
  | zero =>
    rw [writeWithin, bind_eq_ok] at h
    obtain ⟨codec, c₁, -, h⟩ := h
    cases h
  | succ room =>
    obtain ⟨codec, c₁, hwriter, -⟩ := bind_eq_ok.1 h
    rw [writeWithin_of_writer hwriter] at h
    obtain ⟨type, htype, -⟩ := note_lists codec.type c₁
    have hrun := (Exchange.moves_run (s.moves_writeWithin room)
      (codec.write codec.typeName q.object)).to_final (final (WriteContext.note codec.type c₁))
    rw [h] at hrun
    exact List.ne_nil_of_mem (hrun.types.subset htype)

namespace Factory

/-- Parsing an encoded payload exceeds the factory's limit exactly where the limit is below the
depth of the body and two, below nine, or below ten where a type with fields is told. -/
theorem parse_encode {f f' : Factory ω} {object : ω} {bytes : List UInt8}
    (hencode : encode object f = .ok bytes f') :
    ∃ body schema, writing (writeObject object) f = .ok (body, schema) f' ∧
      (max body.nesting (if schema.listsFields then 8 else 7) + 2 ≤ f.config.maxDepth →
        ∀ limit, Envelope.parse (ω := ω) bytes f.config.maxDepth ≠ .error (.depthExceeded limit)) ∧
      (f.config.maxDepth < max body.nesting (if schema.listsFields then 8 else 7) + 2 →
        Envelope.parse (ω := ω) bytes f.config.maxDepth =
          .error (.depthExceeded f.config.maxDepth)) := by
  obtain ⟨body, c, hwriting, hwrite, -, hbytes⟩ := encode_eq_ok hencode
  have hnesting := Envelope.nesting_toValue (e := ⟨body, ⟨c.types⟩⟩)
    (Setting.types_of_writeWithin hwrite)
  refine ⟨body, ⟨c.types⟩, hwriting, fun hfits limit hparse => ?_, fun hexceeds => ?_⟩
  · rw [Envelope.parse_eq_ofValue hbytes (hnesting.trans_le hfits)] at hparse
    obtain ⟨fault, hfault⟩ := (Malforms.envelope _).of_error hparse
    cases hfault
  · exact Envelope.parse_eq_depthExceeded hbytes (hexceeds.trans_eq hnesting.symm)

end Factory

/-! ### Boxes with lists -/

namespace Boxes

/-- A box that holds a value. -/
def holding (v : Value Entity) : Entity := .record 0 [("item", v)]

/-- The envelope of a box that holds a value without objects. -/
def envelopeOf (v : Value Entity) : Envelope Entity :=
  ⟨boxType.descriptor.describe (.list [v]), ⟨[.composite boxType]⟩⟩

/-- An empty list in lists. -/
def lists : Nat → Value Entity
  | 0 => .list []
  | n + 1 => .list [lists n]

/-- By induction on the depth: lists without objects are written as they are. -/
theorem writeAny_lists (n : Nat) : writeAny (lists n) = pure (lists n) := by
  induction n with
  | zero => rfl
  | succ n ih =>
    rw [lists, writeAny, writeItems, ih, writeItems]
    rfl

/-- A box is written with what it holds, if that is written as it is. -/
theorem writing_holding {v : Value Entity} (hv : writeAny v = pure v) :
    Factory.writing (writeObject (holding v)) (factory false) =
      .ok ((envelopeOf v).body, (envelopeOf v).schema) (factory false) := by
  have hwrite : (Codec.object boxCodec).write "Box" (holding v) = pure (envelopeOf v).body := by
    show (do return boxCodec.composite.descriptor.describe (.list (← boxCodec.properties.mapM _)))
      = _
    rw [show boxCodec.properties = [_] from rfl, List.mapM_cons, List.mapM_nil]
    show (do return boxCodec.composite.descriptor.describe (.list (← (do
      return (← writeTyped "Box" "item" .any v) :: (← pure []))))) = _
    rw [writeTyped_any, hv]
    rfl
  have hwriter : (factory false).toSetting.writerFor ⟨holding v, none⟩
      ⟨(factory false).caches, []⟩ = .ok (.object boxCodec) ⟨(factory false).caches, []⟩ := rfl
  rw [Factory.writing, Setting.writing, writeObject, Exchange.run_request,
    show (factory false).config.maxDepth = 63 + 1 from rfl, Setting.writeWithin_of_writer hwriter,
    show (Codec.object boxCodec).typeName = "Box" from rfl, hwrite]
  rfl

/-- The payload of a box is the header and the envelope, if what it holds is written as it is. -/
theorem encode_holding {v : Value Entity} (hv : writeAny v = pure v)
    (hcomplete : (envelopeOf v).toValue.encode.failure = none) :
    Factory.encode (holding v) (factory false) =
      .ok (header ++ (envelopeOf v).toValue.encode.bytes) (factory false) := by
  rw [Factory.encode, bind_ok (writing_holding hv)]
  exact Factory.inspecting_eq_ok.2 ⟨Envelope.toBytes_eq_ok_iff.2 ⟨hcomplete, rfl⟩, rfl⟩

end Boxes

namespace Factory

open Boxes

/-- A box with sixty lists in each other just fits the default limit. -/
theorem parse_encode_lists : ∃ bytes,
    encode (holding (lists 60)) (factory false) = .ok bytes (factory false) ∧
      ∀ limit, Envelope.parse (ω := Entity) bytes (factory false).config.maxDepth ≠
        .error (.depthExceeded limit) := by
  have hencode :=
    encode_holding (writeAny_lists 60) (Option.isNone_iff_eq_none.1 (by decide +kernel))
  obtain ⟨body, schema, hwriting, hfits, -⟩ := parse_encode hencode
  cases (writing_holding (writeAny_lists 60)).symm.trans hwriting
  exact ⟨_, hencode, hfits (by decide +kernel)⟩

end Factory

namespace Boxes

/-- With one more list the box is still written, as one object in no other, but not parsed. -/
theorem not_parse_encode_lists :
    Factory.withConfig registry .inserted .default = .ok (Factory.new registry .inserted) ∧
      (factory false).config = .default ∧ ∃ bytes,
        Factory.encode (holding (lists 61)) (factory false) = .ok bytes (factory false) ∧
          Envelope.parse (ω := Entity) bytes (factory false).config.maxDepth =
            .error (.depthExceeded (factory false).config.maxDepth) := by
  have hcomplete : (envelopeOf (lists 61)).toValue.encode.failure = none :=
    Option.isNone_iff_eq_none.1 (by decide +kernel)
  refine ⟨rfl, rfl, _, encode_holding (writeAny_lists 61) hcomplete, ?_⟩
  exact Envelope.parse_eq_depthExceeded (Envelope.toBytes_eq_ok_iff.2 ⟨hcomplete, rfl⟩)
    (by decide +kernel)

end Boxes

end SelfDescribing
