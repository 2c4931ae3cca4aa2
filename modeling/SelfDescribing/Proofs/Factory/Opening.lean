import SelfDescribing.Proofs.Codec.Conforming
import SelfDescribing.Proofs.Factory.RootCodec

namespace SelfDescribing

open Steps Exchange

/-!
# What decoding opens

A payload says by its descriptors which codecs read it, however deep, and may have been forged.

* `Caches.Made` — the codecs that are kept for older shapes were made from live ones of their names.
* `Setting.opened` — the described values that are opened while one is read, each with the codec
  that is chosen for it.
* `Setting.head_opened`, `Setting.mem_opened_of_inside` — what is read was opened, and so was what
  is read inside of it.
* `Setting.typeName_of_readerFor` — the codec that is chosen is one for the type that the schema
  tells.

`opened` collects, while reading is carried out, each described value that is opened with its codec
and the caches of that moment.  It is a recursion beside the one of reading, and the lemmas relate
the two, so that later proofs may speak of all values that were opened at once.
-/

variable {ω : Type}

/-! ### Codecs of older shapes -/

/-- Every codec that is kept for an older shape was made from a live codec, and has the name under
which it is kept. -/
def Caches.Made (c : Caches ω) : Prop :=
  ∀ key x, c.evolution.find? key = some x → x.Made ∧ x.typeName = key.1

/-- Empty caches keep no codec. -/
theorem Caches.made_empty : (empty : Caches ω).Made := fun _ _ h => nomatch h

/-- Codecs that are added are made from what the caches keep. -/
theorem Caches.Made.extends {s : Setting ω} {c c' : Caches ω} (hmade : c.Made) (hc : c.Coherent)
    (hr : s.registry.Coherent) (h : s.Extends c c') : c'.Made := by
  intro key x hx
  obtain hold | ⟨old, live, rfl, hlive, hmake⟩ := h.evolution_new hx
  · exact hmade key x hold
  · -- The live codec was found under the name of the older shape.
    obtain ⟨shape, r, hshape, hbuild⟩ := hc.extends hr h old.name live hlive
    obtain ⟨k, -, rfl⟩ := EvolutionCodec.make_eq_ok hmake
    exact ⟨⟨old, live, _, hmake⟩, (ObjectCodec.typeName_of_build hbuild).trans hshape⟩

/-- Forgetting codecs leaves codecs that were made so. -/
theorem Caches.Made.forget {c : Caches ω} (hc : c.Made) (names : List String) :
    (Factory.Caches.forget c names).Made := by
  intro key x hx
  rw [Factory.Caches.forget, Table.find?_filterKeys] at hx
  split at hx
  · exact hc key x hx
  · cases hx

/-- The codec of an older shape is kept once it was asked for. -/
theorem Setting.find?_of_evolutionCodec {s : Setting ω} {c c₁ : Caches ω} {old : CompositeType}
    {x : EvolutionCodec ω} (h : s.evolutionCodec old c = .ok x c₁) :
    c₁.evolution.find? (evolutionKey old) = some x := by
  obtain ⟨y, hy, he⟩ | ⟨-, ⟨e, c₂, -, he⟩ | ⟨live, c₂, -, ⟨e, -, he⟩ | ⟨y, -, he⟩⟩⟩ :=
    s.evolutionCodec_cases old c
  · cases he.symm.trans h
    exact hy
  · cases he.symm.trans h
  · cases he.symm.trans h
  · cases he.symm.trans h
    rw [Table.find?_insert, if_pos rfl]

variable [LiveObject ω]

/-- By induction on the operations: every factory that comes up keeps codecs that were made so. -/
theorem Factory.Reachable.made {f : Factory ω} (h : f.Reachable) : f.caches.Made := by
  apply h.caches_induction Caches.made_empty
  · intro s c c' hcoherent hregistry hextends hmade
    exact hmade.extends hcoherent hregistry hextends
  · intro c names hmade
    exact hmade.forget names

/-! ### What is opened -/

/-- A described value that is opened while a payload is read. -/
structure Opening (ω : Type) where
  descriptor : Value ω
  body : Value ω
  /-- The codec that was chosen for the descriptor. -/
  codec : Codec ω
  /-- The levels that are left for what is inside. -/
  room : Nat
  /-- The codecs that were built before the body is read. -/
  caches : Caches ω

/-- The described value. -/
def Opening.value (x : Opening ω) : Value ω := .described x.descriptor x.body

namespace Setting

variable {s : Setting ω} {schema : Schema} {c c₁ : Caches ω} {room : Nat} {v : Value ω}
  {x : Opening ω}

/-- The described values that are opened while one is read. -/
def opened (s : Setting ω) (schema : Schema) : (room : Nat) → Value ω → Caches ω →
    List (Opening ω)
  | room + 1, .described descriptor body, c =>
    match s.readerFor schema descriptor c with
    | .error _ _ => []
    | .ok codec c => ⟨descriptor, body, codec, room, c⟩ ::
      ((codec.read schema body).asked (s.readWithin schema room) c).flatMap
        fun (v, c) => s.opened schema room v c
  | _, _, _ => []

/-- What an opened value is read as. -/
def gives (s : Setting ω) (schema : Schema) (x : Opening ω) : Except Error ω :=
  outcome ((x.codec.read schema x.body).run (s.readWithin schema x.room) x.caches)

/-- What is opened while the body of an opened value is read. -/
def openedInside (s : Setting ω) (schema : Schema) (x : Opening ω) : List (Opening ω) :=
  ((x.codec.read schema x.body).asked (s.readWithin schema x.room) x.caches).flatMap
    fun (v, c) => s.opened schema x.room v c

/-- What is opened inside an object is opened for one of the values that its codec asks for, with
the caches as they are then. -/
theorem mem_openedInside {x y : Opening ω} : y ∈ s.openedInside schema x ↔
    ∃ u c', (u, c') ∈ (x.codec.read schema x.body).asked (s.readWithin schema x.room) x.caches ∧
      y ∈ s.opened schema x.room u c' := by
  rw [openedInside, List.mem_flatMap]
  constructor
  · rintro ⟨⟨u, c'⟩, hasked, hy⟩
    exact ⟨u, c', hasked, hy⟩
  · rintro ⟨u, c', hasked, hy⟩
    exact ⟨(u, c'), hasked, hy⟩

/-- Where something is opened, the value itself is, and what is inside of it. -/
theorem opened_of_mem (h : x ∈ s.opened schema room v c) :
    ∃ first, room = first.room + 1 ∧ v = first.value ∧
      s.readerFor schema first.descriptor c = .ok first.codec first.caches ∧
      s.opened schema room v c = first :: s.openedInside schema first := by
  cases room with
  | zero => cases h
  | succ room =>
    cases v with
    | described descriptor body =>
      cases hreader : s.readerFor schema descriptor c with
      | error e c₁ =>
        rw [opened, hreader] at h
        cases h
      | ok codec c₁ =>
        refine ⟨⟨descriptor, body, codec, room, c₁⟩, rfl, rfl, hreader, ?_⟩
        rw [opened, hreader]
        rfl
    | _ => cases h

/-- A value that is read is opened first, and what is read is what this opening gives. -/
theorem head_opened {object : ω} (h : outcome (s.readWithin schema room v c) = .ok object) :
    ∃ x, (s.opened schema room v c).head? = some x ∧ v = x.value ∧
      s.gives schema x = .ok object := by
  cases v with
  | described descriptor body =>
    cases room with
    | zero => cases h
    | succ room =>
      obtain ⟨codec, c₁, hreader, hread⟩ := bind_eq_ok.1 (eq_ok_of_outcome h)
      refine ⟨⟨descriptor, body, codec, room, c₁⟩, ?_, rfl, ?_⟩
      · rw [opened, hreader, List.head?_cons]
      · rw [gives, hread]
        rfl
  | _ => cases room <;> cases h

/-- The codec of an opened value was chosen by its descriptor, with codecs built before. -/
theorem readerFor_of_opened (h : x ∈ s.opened schema room v c) : ∃ c₀, s.Extends c c₀ ∧
    s.readerFor schema x.descriptor c₀ = .ok x.codec x.caches := by
  induction room generalizing v c with
  | zero => cases h
  | succ room ih =>
    obtain ⟨first, hroom, -, hreader, hopened⟩ := opened_of_mem h
    obtain rfl := Nat.succ.inj hroom
    rw [hopened, List.mem_cons] at h
    obtain rfl | h := h
    · exact ⟨c, refl c, hreader⟩
    · -- The codecs that were built when it was asked for were built while the first was read.
      obtain ⟨u, c', hasked, h⟩ := mem_openedInside.1 h
      obtain ⟨c₀, hextends, hx⟩ := ih h
      have hfirst := (s.moves_readerFor schema first.descriptor).to_final c
      rw [hreader] at hfirst
      have hbetween := (between_of_asked (s.moves_readWithin schema first.room) hasked).1
      exact ⟨c₀, trans_of s.Extends hfirst (trans_of s.Extends hbetween hextends), hx⟩

/-- What is opened inside an opened value is opened as well. -/
theorem mem_opened_of_inside {y : Opening ω} (hx : x ∈ s.opened schema room v c)
    (hy : y ∈ s.openedInside schema x) : y ∈ s.opened schema room v c := by
  induction room generalizing v c with
  | zero => cases hx
  | succ room ih =>
    obtain ⟨first, hroom, -, -, hopened⟩ := opened_of_mem hx
    obtain rfl := Nat.succ.inj hroom
    rw [hopened, List.mem_cons] at hx ⊢
    obtain rfl | hx := hx
    · exact .inr hy
    · -- It is inside the part of the first one inside of which the other is.
      obtain ⟨u, c', hasked, hx⟩ := mem_openedInside.1 hx
      exact .inr (mem_openedInside.2 ⟨u, c', hasked, ih hx⟩)

/-! ### The codecs that are chosen -/

/-- The codec for a descriptor is that of the type that the schema tells for it, or a custom one
where it tells none. -/
theorem readerFor_cases {descriptor : Value ω} {codec : Codec ω}
    (h : s.readerFor schema descriptor c = .ok codec c₁) :
    (∃ b, schema.findByDescriptor? descriptor = none ∧ s.customs.codecFor? descriptor = some b ∧
      codec = .custom b) ∨
    ∃ type, schema.findByDescriptor? descriptor = some type ∧
      ((∃ b, s.customs.codec? type.name = some b ∧ codec = .custom b) ∨
        (∃ live, s.liveCodec type.name c = .ok live c₁ ∧ codec = .object live) ∨
        ∃ old x, type.composite? = some old ∧ c₁.evolution.find? (evolutionKey old) = some x ∧
          codec = .evolution x) := by
  unfold readerFor at h
  cases hfind : schema.findByDescriptor? descriptor with
  | none =>
    rw [hfind] at h
    cases hcustom : s.customs.codecFor? descriptor with
    | none =>
      simp only [hcustom] at h
      cases h
    | some b =>
      simp only [hcustom] at h
      cases h
      exact .inl ⟨b, rfl, rfl, rfl⟩
  | some type =>
    rw [hfind] at h
    refine .inr ⟨type, rfl, ?_⟩
    cases hcustom : s.customs.codec? type.name with
    | some b =>
      simp only [hcustom] at h
      cases h
      exact .inl ⟨b, rfl, rfl⟩
    | none =>
      simp only [hcustom] at h
      obtain ⟨live, c₂, hlive, h⟩ := bind_eq_ok.1 h
      refine .inr ?_
      -- The live codec reads payloads that tell its own fields under its own descriptor.
      split at h
      · cases h
        exact .inl ⟨live, hlive, rfl⟩
      · cases hold : type.composite? with
        | none =>
          simp only [hold] at h
          cases h
        | some old =>
          simp only [hold] at h
          split at h
          · obtain ⟨_, _, hthrow, -⟩ := bind_eq_ok.1 h
            cases hthrow
          · obtain ⟨x, c₃, hx, h⟩ := bind_eq_ok.1 h
            cases h
            exact .inr ⟨old, x, rfl, find?_of_evolutionCodec hx, rfl⟩

/-- The codec for a descriptor was made from a live one if it reads an older shape, and has the name
that the schema tells, unless it is a custom one for a descriptor that is not listed. -/
theorem typeName_of_readerFor (hregistry : s.registry.Coherent) (hcustoms : s.customs.Coherent)
    (hcaches : c.Coherent) (hmade : c.Made) {descriptor : Value ω} {codec : Codec ω}
    (h : s.readerFor schema descriptor c = .ok codec c₁) :
    (∀ x, codec = .evolution x → x.Made) ∧
      ((∃ type, schema.findByDescriptor? descriptor = some type ∧ codec.typeName = type.name) ∨
        schema.findByDescriptor? descriptor = none ∧
          ∃ b, s.customs.codecFor? descriptor = some b ∧ codec = .custom b) := by
  have hextends := (s.moves_readerFor schema descriptor).to_final c
  rw [h] at hextends
  obtain ⟨b, hnone, hb, rfl⟩ | ⟨type, htype, ⟨b, hb, rfl⟩ | ⟨live, hlive, rfl⟩ |
    ⟨old, x, hold, hx, rfl⟩⟩ := readerFor_cases h
  · exact ⟨fun x hx => (nomatch hx), .inr ⟨hnone, b, hb, rfl⟩⟩
  · exact ⟨fun x hx => (nomatch hx), .inl ⟨type, htype, hcustoms.typeName_eq hb⟩⟩
  · exact ⟨fun x hx => (nomatch hx),
      .inl ⟨type, htype, typeName_of_liveCodec hregistry hcaches hlive⟩⟩
  -- The codec of an older shape was made for the name that the payload tells.
  · obtain ⟨hx, hname⟩ := hmade.extends hcaches hregistry hextends _ x hx
    refine ⟨?_, .inl ⟨type, htype, ?_⟩⟩
    · rintro y ⟨⟩
      exact hx
    · cases type with
      | restricted r => cases hold
      | composite old' =>
        cases hold
        exact hname

end Setting

end SelfDescribing
