import SelfDescribing.Proofs.Codec.Build
import SelfDescribing.Proofs.Factory.Reachable

namespace SelfDescribing

open Steps

/-!
# What is reached while a payload is written

* `Setting.reached` — the objects that are handed to codecs while a request is served, each with
  its codec.
* `Setting.Holds` — a codec is found under its name, before and after the shapes.
* `Setting.holds_of_reached`, `Setting.reached_of_listed` — the codecs that are reached are held
  afterwards, with their types listed by name, and nothing else is listed.

`reached` is a recursion beside the one of writing, which collects the objects handed to codecs.
That these codecs are held afterwards is by induction on the room, since nothing that is built or
noted gets lost on the way.
-/

variable {ω : Type}

namespace Setting

/-- No custom codec carries the name of a shape of another host type. -/
def NamesApart (s : Setting ω) : Prop :=
  ∀ name b shape t, s.customs.codec? name = some b → s.registry.shape? name = some shape →
    shape.hostType? = some t → b.codec.hostType = t

/-- A codec is the one that is found under its name: as a custom codec, or else as the default
one of a registered shape. -/
def Holds (s : Setting ω) (caches : Caches ω) : Codec ω → Prop
  | .object c => s.customs.codec? c.typeName = none ∧
      (s.registry.shape? c.typeName).isSome = true ∧ caches.live.find? c.typeName = some c
  | .custom b => s.customs.codec? b.typeName = some b ∧ b.type.name = b.typeName
  | .evolution _ => False

/-- The name determines the codec. -/
theorem Holds.unique {s : Setting ω} {caches : Caches ω} {c₁ c₂ : Codec ω}
    (h₁ : s.Holds caches c₁) (h₂ : s.Holds caches c₂) (hname : c₁.typeName = c₂.typeName) :
    c₁ = c₂ := by
  cases c₁ with
  | evolution c₁ => exact absurd h₁ id
  | object c₁ =>
    cases c₂ with
    | evolution c₂ => exact absurd h₂ id
    | object c₂ =>
      have hsame : c₁.typeName = c₂.typeName := hname
      obtain ⟨-, -, h₁⟩ := h₁
      rw [hsame, h₂.2.2] at h₁
      rw [Option.some.inj h₁]
    -- A default codec is held only for a name that has no custom one.
    | custom b₂ =>
      have hsame : c₁.typeName = b₂.typeName := hname
      obtain ⟨h₁, -⟩ := h₁
      rw [hsame, h₂.1] at h₁
      cases h₁
  | custom b₁ =>
    cases c₂ with
    | evolution c₂ => exact absurd h₂ id
    | object c₂ =>
      have hsame : b₁.typeName = c₂.typeName := hname
      obtain ⟨h₁, -⟩ := h₁
      rw [hsame, h₂.1] at h₁
      cases h₁
    | custom b₂ =>
      have hsame : b₁.typeName = b₂.typeName := hname
      obtain ⟨h₁, -⟩ := h₁
      rw [hsame, h₂.1] at h₁
      rw [Option.some.inj h₁]

/-- A codec that is held stays so while codecs are added. -/
theorem Holds.extends {s : Setting ω} {caches caches' : Caches ω} {c : Codec ω}
    (h : s.Holds caches c) (he : s.Extends caches caches') : s.Holds caches' c := by
  cases c with
  | object c => exact ⟨h.1, h.2.1, he.live_stays h.2.2⟩
  | custom b => exact h
  | evolution c => exact h

/-- The notation of a held codec has its name. -/
theorem Holds.type_name {s : Setting ω} {caches : Caches ω} {c : Codec ω}
    (h : s.Holds caches c) : c.type.name = c.typeName := by
  cases c with
  | object c => rfl
  | custom b => exact h.2
  | evolution c => exact absurd h id

/-- A host type without a custom codec has a name that no custom codec has. -/
theorem codec?_of_host {s : Setting ω} {t : HostType} {name : String}
    (hregistry : s.registry.Coherent) (hcustoms : s.customs.Coherent) (hapart : s.NamesApart)
    (hcustom : s.customs.codecOf? t = none) (hname : s.registry.nameOf? t = some name) :
    s.customs.codec? name = none := by
  obtain ⟨shape, hshape, hkind⟩ := hregistry.shape_of_host hname
  cases hb : s.customs.codec? name with
  | none => rfl
  | some b =>
    -- A custom codec of this name would be one for the host type.
    have hhost : b.codec.hostType = t := hapart name b shape t hb hshape hkind
    have hof := hcustoms.name_of_host hb
    rw [hhost] at hof
    rw [CustomCodecs.codecOf?, hof] at hcustom
    cases hb.symm.trans hcustom

/-- The codec for a host type is held once it was asked for, and has the host type's name. -/
theorem holds_of_codecForHost {s : Setting ω} {t : HostType} {caches caches' : Caches ω}
    {codec : Codec ω} (hregistry : s.registry.Coherent) (hcustoms : s.customs.Coherent)
    (hapart : s.NamesApart) (hcaches : caches.Coherent)
    (h : s.codecForHost t caches = .ok codec caches') :
    s.Holds caches' codec ∧ s.nameOfHost t = .ok codec.typeName := by
  unfold codecForHost at h
  cases hcustom : s.customs.codecOf? t with
  | some b =>
    rw [hcustom] at h
    cases h
    obtain ⟨name, -, hb⟩ := Option.bind_eq_some_iff.1 hcustom
    have htype := hcustoms.typeName_eq hb
    refine ⟨⟨htype ▸ hb, (hcustoms.type_name_eq hb).trans htype.symm⟩, ?_⟩
    rw [nameOfHost, hcustom]
    rfl
  | none =>
    rw [hcustom] at h
    cases hname : s.registry.nameOf? t with
    | none =>
      rw [hname] at h
      cases h
    | some name =>
      rw [hname] at h
      obtain ⟨x, caches₁, hlive, hret⟩ := bind_eq_ok.1 h
      cases hret
      -- What the cache holds under the name was built from a shape of this name.
      have hfound := find?_of_liveCodec hlive
      have hextends := (s.moves_liveCodec name).to_final caches
      rw [hlive] at hextends
      obtain ⟨shape, r, hshape, hbuild⟩ := hcaches.extends hregistry hextends name x hfound
      have htype : x.typeName = name := (ObjectCodec.typeName_of_build hbuild).trans hshape
      obtain ⟨own, hown, -⟩ := hregistry.shape_of_host hname
      have hfree : s.customs.codec? name = none :=
        codec?_of_host hregistry hcustoms hapart hcustom hname
      refine ⟨?_, ?_⟩
      · refine ⟨?_, ?_, ?_⟩
        · rw [htype, hfree]
        · rw [htype, hown]
          rfl
        · rw [htype, hfound]
      · rw [nameOfHost, hcustom, hname]
        exact congrArg Except.ok htype.symm

/-! ### Notations -/

/-- A type is noted at the end, unless one of its name is noted already. -/
theorem final_note (type : TypeNotation) (c : WriteContext ω) :
    final (WriteContext.note type c) =
      if c.types.any (fun t => decide (t.name = type.name)) then c
      else { c with types := c.types ++ [type] } := rfl

/-- A noted type is in the schema by its name. -/
theorem note_lists (type : TypeNotation) (c : WriteContext ω) :
    ∃ t ∈ (final (WriteContext.note type c)).types, t.name = type.name := by
  rw [final_note]
  split
  · rename_i hthere
    obtain ⟨t, ht, hname⟩ := List.any_eq_true.1 hthere
    exact ⟨t, ht, of_decide_eq_true hname⟩
  · exact ⟨type, List.mem_append_right _ List.mem_cons_self, rfl⟩

/-- What is noted was noted before or is the type. -/
theorem mem_note {type t : TypeNotation} {c : WriteContext ω}
    (h : t ∈ (final (WriteContext.note type c)).types) : t ∈ c.types ∨ t = type := by
  rw [final_note] at h
  split at h
  · exact .inl h
  · obtain h | h := List.mem_append.1 h
    · exact .inl h
    · exact .inr (List.mem_singleton.1 h)

/-- Noting a type builds nothing. -/
theorem caches_note (type : TypeNotation) (c : WriteContext ω) :
    (final (WriteContext.note type c)).caches = c.caches := by
  rw [final_note]
  split <;> rfl

/-! ### What is reached -/

variable [LiveObject ω] {s : Setting ω} {c c₁ : WriteContext ω} {q : WriteRequest ω}
  {codec : Codec ω} {room : Nat}

/-- The objects that are handed to codecs while a request is served, with these codecs. -/
def reached (s : Setting ω) : (room : Nat) → WriteRequest ω → WriteContext ω →
    List (ω × Codec ω)
  | 0, _, _ => []
  | room + 1, q, c =>
    match s.writerFor q c with
    | .error _ _ => []
    | .ok codec c => (q.object, codec) ::
      ((codec.write codec.typeName q.object).asked (s.writeWithin room)
          (final (WriteContext.note codec.type c))).flatMap
        fun (q, c) => s.reached room q c

/-- With the writer chosen, its type is noted first, and then the requests of its exchange are
served with less room. -/
theorem writeWithin_of_writer (h : s.writerFor q c = .ok codec c₁) :
    s.writeWithin (room + 1) q c = (codec.write codec.typeName q.object).run (s.writeWithin room)
      (final (WriteContext.note codec.type c₁)) := by
  rw [writeWithin, bind_ok h]
  rfl

/-- The objects met are this one, and those met while its requests are served, each from the state
in which it is asked for. -/
theorem reached_of_writer (h : s.writerFor q c = .ok codec c₁) :
    s.reached (room + 1) q c = (q.object, codec) ::
      ((codec.write codec.typeName q.object).asked (s.writeWithin room)
          (final (WriteContext.note codec.type c₁))).flatMap fun (q, c) => s.reached room q c := by
  rw [reached, h]

/-- An object that is written is written by the codec for it, one level deeper. -/
theorem exists_writer {c' : WriteContext ω} {v : Value ω}
    (h : s.writeWithin room q c = .ok v c') : ∃ inner writer c₁,
      room = inner + 1 ∧ s.writerFor q c = .ok writer c₁ ∧
        (writer.write writer.typeName q.object).run (s.writeWithin inner)
          (final (WriteContext.note writer.type c₁)) = .ok v c' := by
  cases room with
  | zero =>
    obtain ⟨writer, c₁, -, hthrow⟩ := bind_eq_ok.1 h
    cases hthrow
  | succ inner =>
    obtain ⟨writer, c₁, hwriter, -⟩ := bind_eq_ok.1 h
    rw [writeWithin_of_writer hwriter] at h
    exact ⟨inner, writer, c₁, rfl, hwriter, h⟩

/-- Choosing a writer notes nothing, and the codec is the one for the host type of the object. -/
theorem writerFor_ok (h : s.writerFor q c = .ok codec c₁) : c₁.types = c.types ∧
    s.codecForHost (LiveObject.hostType q.object) c.caches = .ok codec c₁.caches := by
  obtain ⟨found, c₂, hfound, h⟩ := bind_eq_ok.1 h
  -- The codec is checked against what is expected, and handed on unchanged.
  have hsame : codec = found ∧ c₁ = c₂ := by
    cases he : q.expected with
    | none =>
      simp only [he] at h
      cases h
      exact ⟨rfl, rfl⟩
    | some expected =>
      simp only [he] at h
      split at h
      · cases h
        exact ⟨rfl, rfl⟩
      · cases h
  obtain ⟨rfl, rfl⟩ := hsame
  unfold WriteContext.building at hfound
  cases hcodec : s.codecForHost (LiveObject.hostType q.object) c.caches with
  | ok a caches =>
    rw [hcodec] at hfound
    cases hfound
    exact ⟨rfl, rfl⟩
  | error e caches =>
    rw [hcodec] at hfound
    cases hfound

/-- What is handed to a codec is the request's object, or is reached while its own requests are
served. -/
theorem reached_cases {x : ω × Codec ω} (h : x ∈ s.reached (room + 1) q c) :
    ∃ codec c₁, s.writerFor q c = .ok codec c₁ ∧ (x = (q.object, codec) ∨
      ∃ q' c', (q', c') ∈ (codec.write codec.typeName q.object).asked (s.writeWithin room)
          (final (WriteContext.note codec.type c₁)) ∧ x ∈ s.reached room q' c') := by
  cases hwriter : s.writerFor q c with
  | error e c₁ =>
    rw [reached, hwriter] at h
    cases h
  | ok codec c₁ =>
    refine ⟨codec, c₁, rfl, ?_⟩
    rw [reached_of_writer hwriter, List.mem_cons, List.mem_flatMap] at h
    obtain h | ⟨⟨q', c'⟩, hasked, h⟩ := h
    · exact .inl h
    · exact .inr ⟨q', c', hasked, h⟩

/-- Choosing a writer notes nothing, also where it fails. -/
theorem types_writerFor (s : Setting ω) (q : WriteRequest ω) (c : WriteContext ω) :
    (final (s.writerFor q c)).types = c.types := by
  have hbuilding : (final (WriteContext.building
      (s.codecForHost (LiveObject.hostType q.object)) c)).types = c.types := by
    unfold WriteContext.building
    split <;> rfl
  unfold writerFor
  cases hfound : WriteContext.building (s.codecForHost (LiveObject.hostType q.object)) c with
  | error e c₁ =>
    rw [hfound] at hbuilding
    rw [bind_error hfound]
    exact hbuilding
  | ok codec c₁ =>
    rw [hfound] at hbuilding
    rw [bind_ok hfound]
    cases q.expected with
    | none => exact hbuilding
    | some expected =>
      simp only []
      split <;> exact hbuilding

/-- A codec that was reached is held afterwards, its object's host type has its name, and its type
is in the schema by its name. -/
theorem holds_of_reached (hregistry : s.registry.Coherent) (hcustoms : s.customs.Coherent)
    (hapart : s.NamesApart) {x : ω × Codec ω} (hcaches : c.caches.Coherent)
    (h : x ∈ s.reached room q c) : s.Holds (final (s.writeWithin room q c)).caches x.2 ∧
      s.nameOfHost (LiveObject.hostType x.1) = .ok x.2.typeName ∧
      ∃ t ∈ (final (s.writeWithin room q c)).types, t.name = x.2.type.name := by
  induction room generalizing q c with
  | zero => cases h
  | succ room ih =>
    obtain ⟨codec, c₁, hwriter, h⟩ := reached_cases h
    rw [writeWithin_of_writer hwriter]
    have hmoves := s.moves_writeWithin room
    obtain ⟨-, hcodec⟩ := writerFor_ok hwriter
    have hfirst := (s.moves_codecForHost (LiveObject.hostType q.object)).to_final c.caches
    rw [hcodec] at hfirst
    have hcaches₁ : c₁.caches.Coherent := hcaches.extends hregistry hfirst
    obtain rfl | ⟨q', c', hasked, h⟩ := h
    · -- The codec of the request itself was chosen and noted before it was run.
      have hrun := (Exchange.moves_run hmoves (codec.write codec.typeName q.object)).to_final
        (final (WriteContext.note codec.type c₁))
      obtain ⟨hholds, hname⟩ := holds_of_codecForHost hregistry hcustoms hapart hcaches hcodec
      refine ⟨hholds.extends ?_, hname, ?_⟩
      · rw [← caches_note codec.type c₁]
        exact hrun.caches
      · obtain ⟨t, ht, hname⟩ := note_lists codec.type c₁
        exact ⟨t, hrun.types.subset ht, hname⟩
    · -- A request that it made was served between the start and the end of its run.
      obtain ⟨hbefore, hafter⟩ := Exchange.between_of_asked hmoves hasked
      have hbefore := hbefore.caches
      rw [caches_note] at hbefore
      obtain ⟨hholds, hhost, t, ht, hname⟩ := ih (hcaches₁.extends hregistry hbefore) h
      exact ⟨hholds.extends hafter.caches, hhost, t, hafter.types.subset ht, hname⟩

/-- The schema lists nothing but what was there and the types of codecs that were reached. -/
theorem reached_of_listed {t : TypeNotation}
    (h : t ∈ (final (s.writeWithin room q c)).types) :
    t ∈ c.types ∨ ∃ x ∈ s.reached room q c, x.2.type = t := by
  induction room generalizing q c with
  | zero =>
    refine .inl ?_
    have htypes := s.types_writerFor q c
    rw [writeWithin] at h
    cases hwriter : s.writerFor q c with
    | error e c₁ =>
      rw [hwriter] at htypes
      rw [bind_error hwriter] at h
      exact htypes ▸ h
    | ok codec c₁ =>
      rw [hwriter] at htypes
      rw [bind_ok hwriter] at h
      exact htypes ▸ h
  | succ room ih =>
    have htypes := s.types_writerFor q c
    cases hwriter : s.writerFor q c with
    | error e c₁ =>
      rw [hwriter] at htypes
      rw [writeWithin, bind_error hwriter] at h
      exact .inl (htypes ▸ h)
    | ok codec c₁ =>
      rw [hwriter] at htypes
      rw [writeWithin_of_writer hwriter] at h
      rw [reached_of_writer hwriter]
      -- A type that was not there appears when the codec is noted, or while a request is served.
      have happears := Exchange.appears_run (P := fun c : WriteContext ω => t ∈ c.types) h
      obtain hstart | ⟨q', c', hasked, hold, hnew⟩ := happears
      · obtain hthere | rfl := mem_note hstart
        · exact .inl (htypes ▸ hthere)
        · exact .inr ⟨_, List.mem_cons_self, rfl⟩
      · obtain hthere | ⟨x, hx, htype⟩ := ih hnew
        · exact absurd hthere hold
        · exact .inr ⟨x, List.mem_cons_of_mem _ (List.mem_flatMap.2 ⟨(q', c'), hasked, hx⟩), htype⟩

end Setting

end SelfDescribing
