import Mathlib.Data.List.Induction
import SelfDescribing.Proofs.Factory.RoundTrip
import SelfDescribing.Proofs.Factory.WritingAnew

namespace SelfDescribing

open Steps

/-!
# Payloads describe themselves

The schema of a payload lists the types of the codecs that were handed an object while it was
written, and tells the type of each described value that one of them wrote.

* `Setting.wrote` — the codecs that are handed an object while a request is served, each with what
  it wrote.
* `Setting.types_eq_foldl_reached`, `Setting.foldl_noted_eq_eraseDups` — what is noted are the types
  of the codecs that were reached, each once, in the order in which they were first reached.
* `Factory.schema_of_encode` — the schema of an encoded object.

Notations are noted in front of what is inside, so that the schema starts with the root.  The list
of notations is described twice: as a fold over the codecs that were reached, which the induction
gives, and as that list without repetitions, which is what one wants to know.
-/

variable {ω : Type}

/-- A codec writes values with its own descriptor. -/
theorem Codec.eq_describe_of_write [LiveObject ω]
    {answers : WriteRequest ω → Except Error (Value ω) → Prop} {codec : Codec ω} {owner : String}
    {object : ω} {v : Value ω} (h : (codec.write owner object).Ends answers (.ok v)) :
    ∃ body, v = codec.descriptor.describe body := by
  cases codec with
  | object c =>
    obtain ⟨items, -, h⟩ := Exchange.Ends.bind_ok_iff.1 h
    exact ⟨.list items, Except.ok.inj (Exchange.Ends.pure_iff.1 h)⟩
  | custom b =>
    obtain ⟨body, -, hv⟩ := Codec.ends_write_custom h
    exact ⟨body, hv⟩
  | evolution c => cases Exchange.Ends.throw_iff.1 h

namespace Setting

variable {s : Setting ω} {codecs : List (Codec ω)}

/-! ### What is noted -/

/-- Each name is noted once. -/
theorem nodup_foldl_noted {types : List TypeNotation} (h : (types.map (·.name)).Nodup) :
    ((codecs.foldl noted types).map (·.name)).Nodup := by
  induction codecs generalizing types with
  | nil => exact h
  | cons codec codecs ih =>
    refine ih ?_
    unfold noted
    split
    · exact h
    · rename_i hnew
      rw [List.any_eq_true] at hnew
      rw [List.map_append, List.map_singleton]
      refine h.append (List.nodup_singleton _) (List.disjoint_singleton.2 ?_)
      rintro hthere
      -- A type is noted only if none of its name was.
      obtain ⟨t, ht, hname⟩ := List.mem_map.1 hthere
      exact hnew ⟨t, ht, decide_eq_true hname⟩

/-- Where names tell types apart, each type is noted once, in the order of their first codecs. -/
theorem foldl_noted_eq_eraseDups
    (h : ∀ x ∈ codecs, ∀ y ∈ codecs, x.type.name = y.type.name → x.type = y.type) :
    codecs.foldl noted [] = (codecs.map (·.type)).eraseDups := by
  -- By the last codec, as what is noted depends on what was noted before.
  induction codecs using List.reverseRecOn with
  | nil => rfl
  | append_singleton codecs codec ih =>
    have hbefore := ih fun x hx y hy =>
      h x (List.mem_append_left _ hx) y (List.mem_append_left _ hy)
    rw [List.foldl_append, hbefore, List.map_append, List.eraseDups_append, List.map_singleton,
      List.cons_removeAll, List.foldl_cons, List.foldl_nil, noted]
    by_cases hthere : codec.type ∈ codecs.map (·.type)
    · -- A type that is there is dropped on both sides.
      have hnoted : (codecs.map (·.type)).eraseDups.any
          (fun t => decide (t.name = codec.type.name)) = true :=
        List.any_eq_true.2 ⟨_, List.mem_eraseDups.2 hthere, decide_eq_true rfl⟩
      rw [if_pos hnoted, if_neg (by simpa using hthere), List.nil_removeAll, List.eraseDups_nil,
        List.append_nil]
    · -- A type of this name that is there would be this very type.
      have hnew : ¬ (codecs.map (·.type)).eraseDups.any
          (fun t => decide (t.name = codec.type.name)) = true := by
        rw [List.any_eq_true]
        rintro ⟨t, ht, hname⟩
        obtain ⟨x, hx, rfl⟩ := List.mem_map.1 (List.mem_eraseDups.1 ht)
        have hsame := h x (List.mem_append_left _ hx) codec
          (List.mem_append_right _ List.mem_cons_self) (of_decide_eq_true hname)
        exact hthere (hsame ▸ List.mem_map.2 ⟨x, hx, rfl⟩)
      rw [if_neg hnew, if_pos (by simpa using hthere), List.nil_removeAll]
      rfl

variable [LiveObject ω] {c c' : WriteContext ω} {q : WriteRequest ω} {room : Nat} {v : Value ω}

/-- Nothing is noted where no level is left. -/
theorem types_writeWithin_zero (s : Setting ω) (q : WriteRequest ω) (c : WriteContext ω) :
    (final (s.writeWithin 0 q c)).types = c.types := by
  rw [← s.types_writerFor q c, writeWithin]
  cases hwriter : s.writerFor q c with
  | error e c₁ =>
    rw [bind_error hwriter]
    rfl
  | ok codec c₁ =>
    rw [bind_ok hwriter]
    rfl

/-- What is noted while a request is served are the types of the codecs that are reached. -/
theorem types_eq_foldl_reached (s : Setting ω) (room : Nat) (q : WriteRequest ω)
    (c : WriteContext ω) : (final (s.writeWithin room q c)).types =
      ((s.reached room q c).map (·.2)).foldl noted c.types := by
  induction room generalizing q c with
  | zero => exact s.types_writeWithin_zero q c
  | succ room ih =>
    have htypes := s.types_writerFor q c
    cases hwriter : s.writerFor q c with
    | error e c₁ =>
      rw [hwriter] at htypes
      rw [writeWithin, bind_error hwriter, reached, hwriter]
      exact htypes
    | ok codec c₁ =>
      rw [hwriter] at htypes
      -- The codec is noted before it runs, and its requests note what they reach, in order.
      have hnoted : (final (WriteContext.note codec.type c₁)).types = noted c.types codec := by
        rw [← htypes, final_note, noted]
        exact apply_ite WriteContext.types _ _ _
      have hrun := Exchange.final_run_asked WriteContext.types
        (fun types x => ((s.reached room x.1 x.2).map (·.2)).foldl noted types) (fun q c => ih q c)
        (codec.write codec.typeName q.object) (final (WriteContext.note codec.type c₁))
      rw [writeWithin_of_writer hwriter, hrun, hnoted, reached_of_writer hwriter, List.map_cons,
        List.foldl_cons, List.map_flatMap, List.foldl_flatMap]

/-! ### What is written -/

/-- The codecs that are handed an object while a request is served, each with what it wrote. -/
def wrote (s : Setting ω) : (room : Nat) → WriteRequest ω → WriteContext ω →
    List (Codec ω × Except Error (Value ω))
  | 0, _, _ => []
  | room + 1, q, c =>
    match s.writerFor q c with
    | .error _ _ => []
    | .ok codec c =>
      -- What it wrote may be an error, which the codec that asked for it may handle.
      let start := final (WriteContext.note codec.type c)
      let x := codec.write codec.typeName q.object
      (codec, outcome (x.run (s.writeWithin room) start)) ::
        (x.asked (s.writeWithin room) start).flatMap fun (q, c) => s.wrote room q c

/-- The codecs that write are those that are reached. -/
theorem fst_wrote (s : Setting ω) (room : Nat) (q : WriteRequest ω) (c : WriteContext ω) :
    (s.wrote room q c).map (·.1) = (s.reached room q c).map (·.2) := by
  induction room generalizing q c with
  | zero => rfl
  | succ room ih =>
    rw [wrote, reached]
    cases s.writerFor q c with
    | error e c₁ => rfl
    | ok codec c₁ =>
      simp only [List.map_cons, List.map_flatMap, ih]

/-- What a codec wrote has its own descriptor. -/
theorem eq_describe_of_wrote {codec : Codec ω} (h : (codec, .ok v) ∈ s.wrote room q c) :
    ∃ body, v = codec.descriptor.describe body := by
  induction room generalizing q c with
  | zero => cases h
  | succ room ih =>
    rw [wrote] at h
    cases hwriter : s.writerFor q c with
    | error e c₁ =>
      rw [hwriter] at h
      cases h
    | ok writer c₁ =>
      rw [hwriter, List.mem_cons, List.mem_flatMap] at h
      obtain h | ⟨⟨q', c'⟩, -, h⟩ := h
      · have hends := Exchange.ends_run (s.writeWithin room) (writer.write writer.typeName q.object)
          (final (WriteContext.note writer.type c₁))
        obtain ⟨rfl, hv⟩ := Prod.mk.inj h
        rw [← hv] at hends
        exact Codec.eq_describe_of_write hends
      · exact ih h

/-- An object that is written is handed to a codec first, and what this codec wrote is what was
written. -/
theorem head_reached (h : s.writeWithin room q c = .ok v c') : ∃ writer,
    (s.reached room q c).head? = some (q.object, writer) ∧
      (s.wrote room q c).head? = some (writer, .ok v) := by
  obtain ⟨inner, writer, c₁, rfl, hwriter, hrun⟩ := exists_writer h
  refine ⟨writer, ?_, ?_⟩
  · rw [reached_of_writer hwriter, List.head?_cons]
  · rw [wrote, hwriter]
    simp only [hrun, List.head?_cons]
    rfl

end Setting

namespace Factory

variable [LiveObject ω]

/-- The codecs that are handed an object while an object is encoded, each with what it wrote. -/
def wrote (f : Factory ω) (object : ω) : List (Codec ω × Except Error (Value ω)) :=
  f.toSetting.wrote f.config.maxDepth ⟨object, none⟩ ⟨f.caches, []⟩

/-- The schema of an encoded object lists the types of the codecs that were reached, each once, in
the order in which they were first reached and that of the object itself first.  If their
descriptors tell them apart, it tells the type of each described value that one of them wrote. -/
theorem schema_of_encode {f f' : Factory ω} {object : ω} {bytes : List UInt8} (hf : f.Reachable)
    (hencode : encode object f = .ok bytes f') (hapart : f.toSetting.NamesApart)
    (hdescriptors : ∀ x ∈ f.reached object, ∀ y ∈ f.reached object,
      x.2.descriptor.admits (y.2.descriptor.toValue : Value ω) = true →
        x.2.typeName = y.2.typeName) :
    ∃ e : Envelope ω, e.toBytes = .ok bytes ∧
      (∀ limit e', Envelope.parse bytes limit = .ok e' → e' = e) ∧
      e.schema.types = ((f.reached object).map (·.2.type)).eraseDups ∧
      (e.schema.types.map (·.name)).Nodup ∧
      (∃ writer, (f.reached object).head? = some (object, writer) ∧
        (f.wrote object).head? = some (writer, .ok e.body)) ∧
      (f.wrote object).map (·.1) = (f.reached object).map (·.2) ∧
      ∀ codec v, (codec, .ok v) ∈ f.wrote object → ∃ descriptor body,
        v = .described descriptor body ∧
          e.schema.findByDescriptor? descriptor = some codec.type := by
  obtain ⟨body, c, -, hwrite, -, hbytes⟩ := encode_eq_ok hencode
  have hreached := reached_of_writeWithin hf.coherent hapart hwrite
  have htypes := f.toSetting.types_eq_foldl_reached f.config.maxDepth ⟨object, none⟩ ⟨f.caches, []⟩
  have hfst := f.toSetting.fst_wrote f.config.maxDepth ⟨object, none⟩ ⟨f.caches, []⟩
  rw [hwrite] at htypes
  -- The codecs that were reached are held, so that a name has one codec.
  have hnames : ∀ x ∈ (f.reached object).map (·.2), ∀ y ∈ (f.reached object).map (·.2),
      x.type.name = y.type.name → x.type = y.type := by
    intro x hx y hy hname
    obtain ⟨x₀, hx₀, rfl⟩ := List.mem_map.1 hx
    obtain ⟨y₀, hy₀, rfl⟩ := List.mem_map.1 hy
    rw [(hreached.holds x₀ hx₀).type_name, (hreached.holds y₀ hy₀).type_name] at hname
    rw [(hreached.holds x₀ hx₀).unique (hreached.holds y₀ hy₀) hname]
  refine ⟨⟨body, ⟨c.types⟩⟩, hbytes, fun limit e' => Envelope.eq_of_parse_toBytes hbytes, ?_, ?_,
    Setting.head_reached hwrite, hfst, fun codec v hv => ?_⟩
  · show c.types = _
    have hlisted := htypes.trans (Setting.foldl_noted_eq_eraseDups hnames)
    rwa [List.map_map] at hlisted
  · show (c.types.map (·.name)).Nodup
    rw [show c.types = _ from htypes]
    exact Setting.nodup_foldl_noted List.nodup_nil
  · -- The codec was reached, and described the value with its own descriptor.
    have hcodec : codec ∈ (f.reached object).map (·.2) :=
      hfst ▸ List.mem_map.2 ⟨_, hv, rfl⟩
    obtain ⟨x, hx, rfl⟩ := List.mem_map.1 hcodec
    obtain ⟨body, rfl⟩ := Setting.eq_describe_of_wrote hv
    exact ⟨_, body, rfl, hreached.findByDescriptor? hdescriptors x hx⟩

/-- The payload of a box with a note lists both types, the box's first. -/
theorem schema_of_encode_box : ∃ e : Envelope Entity,
    e.toBytes = .ok (header ++ (Boxes.envelope false).toValue.encode.bytes) ∧
      e.schema.types = [.composite Boxes.boxType, .composite (Boxes.noteType false)] := by
  obtain ⟨e, hbytes, -, htypes, -⟩ := schema_of_encode (Boxes.reachable_factory false)
    (Boxes.encode_box false) (Boxes.namesApart_factory false) (Boxes.descriptors_box false)
  refine ⟨e, hbytes, ?_⟩
  rw [htypes, Boxes.reached_box]
  rfl

end Factory

end SelfDescribing
