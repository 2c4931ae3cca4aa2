import SelfDescribing.Proofs.Codec.Restoring
import SelfDescribing.Proofs.Factory.Writing

namespace SelfDescribing

open Steps

/-!
# Objects are read back

* `Setting.readerFor_of_holds` — the codec that wrote a value is the one that reads it.
* `Setting.rereads` — a described value is read as the object that it was written for, level by
  level.
* `Setting.readWithin_root` — an object of a shape is read as what its constructor makes of the
  values that come back.

By induction on the room: an object is read back if all that was reached inside it is.  The codecs
come from writing, where they were chosen by host type; reading chooses them by the tag, which leads
to the same ones where no two of the types reached share a descriptor.
-/

variable {ω : Type} [LiveObject ω]

namespace Setting

/-- The codec that wrote a value reads it, where it is still held and the schema tells its type. -/
theorem readerFor_of_holds {s : Setting ω} {schema : Schema} {caches : Caches ω} {codec : Codec ω}
    (hholds : s.Holds caches codec)
    (hlisted : schema.findByDescriptor? (codec.descriptor.toValue : Value ω) = some codec.type) :
    s.readerFor schema codec.descriptor.toValue caches = .ok codec caches := by
  unfold readerFor
  rw [hlisted]
  cases codec with
  | evolution c => exact absurd hholds id
  | custom b =>
    have hcustom : s.customs.codec? (Codec.custom b).type.name = some b := by
      rw [show (Codec.custom b).type.name = b.typeName from hholds.2, hholds.1]
    simp only [hcustom]
    rfl
  | object c =>
    -- A default codec is held where no custom one has its name, and its own notation passes both
    -- tests.
    obtain ⟨hfree, -, hlive⟩ := hholds
    have hcustom : s.customs.codec? (Codec.object c).type.name = none := hfree
    have hcached : s.liveCodec (Codec.object c).type.name caches = .ok c caches :=
      liveCodec_of_find? hlive
    have hsame : sameFields (Codec.object c).type c = true := decide_eq_true rfl
    have hadmits : c.composite.descriptor.admits
        ((Codec.object c).descriptor.toValue : Value ω) = true := Descriptor.admits_toValue _
    simp only [hcustom, bind_ok hcached, hsame, hadmits, Bool.and_self, if_true]
    rfl

/-! ### Levels -/

section Levels

variable {s s' : Setting ω} {schema : Schema} {held : Caches ω} {room : Nat} {q : WriteRequest ω}
  {c c' : WriteContext ω} {v : Value ω}

/-- What the requests that are made while an exchange is carried out are answered. -/
def Written {β : Type} (s : Setting ω) (room : Nat) (x : Writing ω β) (c : WriteContext ω)
    (q : WriteRequest ω) (answer : Except Error (Value ω)) : Prop :=
  ∃ c', (q, c') ∈ x.asked (s.writeWithin room) c ∧ outcome (s.writeWithin room q c') = answer

/-- What a value is read as, where the codecs in some caches are still held. -/
def ReadFrom (s : Setting ω) (schema : Schema) (held : Caches ω) (room : Nat) (v : Value ω)
    (answer : Except Error ω) : Prop :=
  ∃ caches, s.Extends held caches ∧ outcome (s.readWithin schema room v caches) = answer

/-- A described value is read by the codec that wrote it, with whatever is read inside it. -/
theorem readWithin_described {codec : Codec ω} {body : Value ω} {r : Except Error ω}
    (hholds : s'.Holds held codec)
    (hlisted : schema.findByDescriptor? (codec.descriptor.toValue : Value ω) = some codec.type)
    (hread : ∀ result, (codec.read schema body).Ends (s'.ReadFrom schema held room) result →
      result = r) {caches : Caches ω} (hextends : s'.Extends held caches) :
    outcome (s'.readWithin schema (room + 1) (codec.descriptor.describe body) caches) = r := by
  have hreader := readerFor_of_holds (hholds.extends hextends) hlisted
  show outcome ((s'.readerFor schema codec.descriptor.toValue >>= fun codec =>
    (codec.read schema body).run (s'.readWithin schema room)) caches) = _
  rw [bind_ok hreader]
  -- The codecs that are held stay in the caches while the reader runs.
  refine hread _ ((Exchange.ends_run _ _ _).mono ?_)
  rintro w a ⟨caches', hasked, ha⟩
  have hbetween := Exchange.between_of_asked (s'.moves_readWithin schema room) hasked
  exact ⟨caches', trans_of s'.Extends hextends hbetween.1, ha⟩

/-- A codec that was reached for an object undoes its writing under a schema that tells its type,
and it is held. -/
structure Recovers (s : Setting ω) (schema : Schema) (held : Caches ω) (x : ω × Codec ω) :
    Prop where
  undoes : x.2.UndoesIn schema x.1
  holds : s.Holds held x.2
  listed : schema.findByDescriptor? (x.2.descriptor.toValue : Value ω) = some x.2.type

/-- What was written for an object with some levels left was written by a codec that was reached
and is read as this object, if all codecs that were reached recover their objects. -/
def Rereads (s s' : Setting ω) (schema : Schema) (held : Caches ω) (room : Nat) : Prop :=
  ∀ ⦃q c c' v⦄, s.writeWithin room q c = .ok v c' →
    (∀ x ∈ s.reached room q c, s'.Recovers schema held x) →
    (∃ codec body, (q.object, codec) ∈ s.reached room q c ∧ v = codec.descriptor.describe body) ∧
      ∀ caches, s'.Extends held caches →
        outcome (s'.readWithin schema room v caches) = .ok q.object

/-- The requests of an exchange are read back if the codecs that they reach recover their
objects. -/
theorem Rereads.restores (h : Rereads s s' schema held room) {β : Type} {x : Writing ω β}
    (hreached : ∀ y ∈ (x.asked (s.writeWithin room) c).flatMap fun (q, c) => s.reached room q c,
      s'.Recovers schema held y) :
    Restores schema (s.Written room x c) (s'.ReadFrom schema held room) := by
  rintro q v ⟨c', hasked, hv⟩
  have hinside := fun y hy => hreached y (List.mem_flatMap.2 ⟨(q, c'), hasked, hy⟩)
  obtain ⟨⟨codec, body, hmem, rfl⟩, hread⟩ := h (eq_ok_of_outcome hv) hinside
  refine ⟨⟨_, _, rfl, by rw [(hinside _ hmem).listed]; rfl⟩, ?_⟩
  rintro a ⟨caches, hextends, rfl⟩
  exact hread caches hextends

/-- By induction on the room: whatever is written is read back by codecs that were held while it was
written. -/
theorem rereads (s s' : Setting ω) (schema : Schema) (held : Caches ω) (room : Nat) :
    Rereads s s' schema held room := by
  -- By the levels that are left, which are the same for writing and for reading.
  induction room with
  | zero =>
    intro q c c' v hwrite
    obtain ⟨inner, -, -, hroom, -⟩ := exists_writer hwrite
    cases hroom
  | succ room ih =>
    intro q c c' v hwrite hreached
    obtain ⟨_, codec, c₁, ⟨⟩, hwriter, hrun⟩ := exists_writer hwrite
    rw [reached_of_writer hwriter] at hreached ⊢
    rw [List.forall_mem_cons] at hreached
    obtain ⟨⟨hundoes, hholds, hlisted⟩, hinside⟩ := hreached
    have hends := Exchange.ends_run (s.writeWithin room)
      (codec.write codec.typeName q.object) (final (WriteContext.note codec.type c₁))
    rw [hrun] at hends
    -- What was written inside is read back one level deeper.
    obtain ⟨body, rfl, hgives⟩ := Codec.read_write (ih.restores hinside) hundoes hends
    exact ⟨⟨codec, body, List.mem_cons_self, rfl⟩,
      fun caches => readWithin_described hholds hlisted hgives⟩

/-- What was written for an object is read as this object, if all codecs that were reached undo
their writing, are still held, and have their types told by the schema. -/
theorem readWithin_of_writeWithin (hwrite : s.writeWithin room q c = .ok v c')
    (hreached : ∀ x ∈ s.reached room q c, x.2.Undoes x.1 ∧ s'.Holds held x.2 ∧
      schema.findByDescriptor? (x.2.descriptor.toValue : Value ω) = some x.2.type) :
    (∃ codec body, (q.object, codec) ∈ s.reached room q c ∧ v = codec.descriptor.describe body) ∧
      ∀ caches, s'.Extends held caches →
        outcome (s'.readWithin schema room v caches) = .ok q.object :=
  rereads s s' schema held room hwrite fun x hx =>
    ⟨(hreached x hx).1.undoesIn schema, (hreached x hx).2.1, (hreached x hx).2.2⟩

/-- What was written for an object of a shape is read as what the constructor makes of the values
that the getters gave: each as it was exactly if its live objects stand outside its described
values, where all that was written is data. -/
theorem readWithin_root (hwrite : s.writeWithin room q c = .ok v c') {codec : ObjectCodec ω}
    (hhead : (s.reached room q c).head? = some (q.object, .object codec))
    (hholds : s'.Holds held (.object codec))
    (hlisted : schema.findByDescriptor? (codec.composite.descriptor.toValue : Value ω) =
      some (.composite codec.composite))
    (hfits : ∀ p ∈ codec.properties, ∀ v, p.Holds q.object v →
      schema.ListsNone v ∧ (v = .null → p.nullable = true))
    (hinside : ∀ x ∈ (s.reached room q c).tail, s'.Recovers schema held x)
    (hdata : v.HoldsNoObject) :
    ∃ values us, List.Forall₂ (fun p v => p.Holds q.object v) codec.properties values ∧
      List.Forall₂ (fun v u => u = v ↔ v.ObjectsOutside) values us ∧
      ∀ k, codec.constructor = some k → ∀ caches, s'.Extends held caches →
        outcome (s'.readWithin schema room v caches) = k.build us := by
  obtain ⟨room, _, c₁, rfl, hwriter, hrun⟩ := exists_writer hwrite
  rw [reached_of_writer hwriter] at hhead hinside
  obtain ⟨-, rfl⟩ := Prod.mk.inj (Option.some.inj hhead)
  have hends := Exchange.ends_run (s.writeWithin room)
    ((Codec.object codec).write (Codec.object codec).typeName q.object)
    (final (WriteContext.note (Codec.object codec).type c₁))
  rw [hrun] at hends
  -- What was written inside is read back by the same codecs, with the same room.
  obtain ⟨ws, values, us, rfl, hvalues, -, hreturns, hread⟩ :=
    ObjectCodec.ends_read ((rereads s s' schema held room).restores hinside) hfits hends
  refine ⟨values, us, hvalues, hreturns fun w hw => ?_, fun k hk caches hextends => ?_⟩
  · exact hdata.part (.body (.item hw .refl))
  · exact readWithin_described hholds hlisted (hread k hk) hextends

end Levels

end Setting

end SelfDescribing
