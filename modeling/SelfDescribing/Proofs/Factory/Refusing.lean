import SelfDescribing.Proofs.Codec.Sequences
import SelfDescribing.Proofs.Factory.Documentation
import SelfDescribing.Proofs.Factory.Opening
import SelfDescribing.Proofs.Factory.Upgrading

namespace SelfDescribing

open Exchange Steps

/-!
# Evolution switched off

Without evolution a payload that tells a type otherwise than it is now is refused, and nothing else
changes.

* `FirstDifference` — the name at the first position where two lists of fields differ.
* `Exchange.StopsAt` — exchanges that end with an error of a kind as soon as it comes as an answer.
* `Unless` — a run that ends as another one does, unless it ends with an error of a kind.
* `Setting.Refuses` — the errors with which payloads are refused.
* `Factory.decode_without_evolution` — decoding with evolution switched off and switched on.

The two decodings run side by side.  While no type is refused they are in the same state, since
switching evolution off has no other effect than refusals.  After one they may go different ways
only if some codec recovers from the error, which `StopsAt` excludes.
-/

/-! ### The first difference -/

/-- The name at the first position where two lists of fields differ, that of the old field there if
there is one. -/
def FirstDifference (old live : List Field) (name : String) : Prop :=
  ∃ i f, old.take i = live.take i ∧ old[i]? ≠ live[i]? ∧ old[i]?.or live[i]? = some f ∧
    name = f.name

/-- Fields in common in front do not change where the first difference is. -/
theorem FirstDifference.cons {old live : List Field} {name : String}
    (h : FirstDifference old live name) (f : Field) :
    FirstDifference (f :: old) (f :: live) name := by
  obtain ⟨i, g, hbefore, hdiffer, hname⟩ := h
  exact ⟨i + 1, g, congrArg (f :: ·) hbefore, hdiffer, hname⟩

/-- By induction on both lists: they are equal and no name is found, or the name at the first
difference is. -/
theorem firstDifference_cases (old live : List Field) :
    (old = live ∧ Setting.firstDifference old live = "") ∨
      FirstDifference old live (Setting.firstDifference old live) := by
  induction old generalizing live with
  | nil =>
    cases live with
    | nil => exact .inl ⟨rfl, rfl⟩
    | cons l live => exact .inr ⟨0, l, rfl, nofun, rfl, rfl⟩
  | cons o old ih =>
    cases live with
    | nil => exact .inr ⟨0, o, rfl, nofun, rfl, rfl⟩
    | cons l live =>
      rw [Setting.firstDifference]
      split
      · rename_i hsame
        subst hsame
        obtain ⟨rfl, hname⟩ | hdiffer := ih live
        · exact .inl ⟨rfl, hname⟩
        · exact .inr (hdiffer.cons o)
      · rename_i hdiffer
        refine .inr ⟨0, o, rfl, fun hsame => hdiffer ?_, rfl, rfl⟩
        exact Option.some.inj hsame

/-! ### Runs that may be refused -/

/-- The second end is the first one, unless it is an error of a kind. -/
def Unless {ε σ α : Type} (P : ε → Prop) (r r' : EStateM.Result ε σ α) : Prop :=
  r' = r ∨ ∃ e s, r' = .error e s ∧ P e

namespace Exchange

variable {ρ α β σ : Type} {P Q : Error → Prop} {x : Exchange ρ α β}

/-- An exchange that ends with an error of a kind as soon as a request is answered with it. -/
inductive StopsAt (P : Error → Prop) : Exchange ρ α β → Prop
  | done (result : Except Error β) : StopsAt P (.done result)
  | ask {q resume} : (∀ e, P e → resume (.error e) = .done (.error e)) →
      (∀ answer, StopsAt P (resume answer)) → StopsAt P (.ask q resume)

namespace StopsAt

/-- A request hands on its answer, also an error. -/
theorem request (q : ρ) : StopsAt P (Exchange.request q : Exchange ρ α α) :=
  .ask (fun _ _ => rfl) fun answer => .done answer

/-- An exchange in sequence stops where its parts do. -/
theorem bind {γ : Type} {f : β → Exchange ρ α γ} (hx : x.StopsAt P) (hf : ∀ b, (f b).StopsAt P) :
    StopsAt P (x >>= f) := by
  induction hx with
  | done result =>
    cases result with
    | ok b => exact hf b
    | error e => exact .done (.error e)
  | ask hstop _ ih =>
    refine .ask (fun e he => ?_) ih
    rw [hstop e he]
    rfl

/-- Exchanges that stop at a kind of error can be put together in sequence. -/
theorem sequential : Sequential fun {β} (x : Exchange ρ α β) => x.StopsAt P :=
  ⟨.done, fun hx hf => hx.bind hf⟩

/-- Where requests are served alike unless they are refused, an exchange that stops at refusals ends
alike unless it is refused. -/
theorem run_unless {serve serve' : ρ → EStateM Error σ α} {I : σ → Prop} (hx : x.StopsAt P)
    (hserve : ∀ q {s}, I s → Unless Q (serve q s) (serve' q s))
    (hkeeps : ∀ q {s}, I s → I (final (serve q s))) (hQ : ∀ e, Q e → P e) {s : σ} (hs : I s) :
    Unless Q (x.run serve s) (x.run serve' s) := by
  induction hx generalizing s with
  | done result => exact .inl (by cases result <;> rfl)
  | @ask q resume hstop _ ih =>
    rw [run_ask, run_ask]
    obtain hsame | ⟨e, s', hrefused, he⟩ := hserve q hs
    · rw [hsame]
      exact ih _ (hkeeps q hs)
    · -- The exchange ends with the refusal that it is handed.
      rw [hrefused]
      refine .inr ⟨e, s', ?_, he⟩
      show (resume (.error e)).run serve' s' = _
      rw [hstop e (hQ e he)]
      rfl

end StopsAt

end Exchange

/-! ### Codecs -/

variable {ω : Type}

/-- A refusal where evolution is switched off. -/
def Error.IsRefusal (e : Error) : Prop :=
  ∃ name field, e = .incompatible name field .evolutionDisabled

/-- Reading that does not recover from the refusal of a value inside. -/
def StopsAtRefusals (read : Schema → Value ω → Reading ω ω) : Prop :=
  ∀ schema body, (read schema body).StopsAt Error.IsRefusal

/-- Records take each field as it is answered. -/
theorem stopsAtRefusals_record (c : RecordCodec) : StopsAtRefusals c.read :=
  fun schema _ => StopsAt.sequential.readRecord c schema fun part _ => .request part

namespace Setting

/-- The setting with evolution switched on or off. -/
def evolving (s : Setting ω) (evolution : Bool) : Setting ω :=
  { s with config := { s.config with evolution := evolution } }

/-- An error that refuses a type of a schema, whose fields or whose descriptor are not the live
ones.  It names the field at the first difference, and no field where the fields are the same. -/
def Refuses (s : Setting ω) (schema : Schema) (e : Error) : Prop :=
  ∃ old live field, .composite old ∈ schema.types ∧ s.buildLive old.name = .ok live ∧
    (old.fields ≠ live.composite.fields ∨ old.descriptor ≠ live.composite.descriptor) ∧
    ((old.fields = live.composite.fields ∧ field = "") ∨
      FirstDifference old.fields live.composite.fields field) ∧
    e = .incompatible old.name field .evolutionDisabled

variable {s : Setting ω} {schema : Schema} {c c₁ : Caches ω}

/-- Another scan order and another use of evolution do not get in each other's way. -/
theorem Rescans.evolving {s' : Setting ω} (h : s.Rescans s') (evolution : Bool) :
    (s.evolving evolution).Rescans (s'.evolving evolution) := by
  refine ⟨h.registry, ?_, h.customs⟩
  show { s'.config with evolution := evolution } = { s.config with evolution := evolution }
  rw [h.config]

/-- What is built of shapes does not depend on whether evolution is on. -/
theorem extends_of_evolving {evolution : Bool} (h : (s.evolving evolution).Extends c c₁) :
    s.Extends c c₁ :=
  ⟨h.live_stays, h.evolution_stays, h.live_new, h.evolution_new⟩

/-- The refusal of a type in a payload is a refusal. -/
theorem Refuses.isRefusal {e : Error} (h : s.Refuses schema e) : e.IsRefusal := by
  obtain ⟨old, live, field, -, -, -, -, rfl⟩ := h
  exact ⟨old.name, field, rfl⟩

variable [LiveObject ω]

/-- A codec for a descriptor is the same with and without evolution, unless its type is refused. -/
theorem readerFor_unless (schema : Schema) (descriptor : Value ω) (hc : s.Extends .empty c) :
    Unless (s.Refuses schema) ((s.evolving true).readerFor schema descriptor c)
      ((s.evolving false).readerFor schema descriptor c) := by
  have hlive : ∀ evolution, (s.evolving evolution).liveCodec = s.liveCodec := fun _ => rfl
  have hcustoms : ∀ evolution, (s.evolving evolution).customs = s.customs := fun _ => rfl
  unfold readerFor
  cases hfind : schema.findByDescriptor? descriptor with
  | none => exact .inl rfl
  | some type =>
    simp only [hlive, hcustoms]
    cases s.customs.codec? type.name with
    | some b => exact .inl rfl
    | none =>
      dsimp only
      cases hfound : s.liveCodec type.name c with
      | error e c₁ =>
        rw [bind_error hfound, bind_error hfound]
        exact .inl rfl
      | ok live c₁ =>
        have hextends := (s.moves_liveCodec type.name).to_final c
        rw [hfound] at hextends
        rw [bind_ok hfound, bind_ok hfound]
        split
        · exact .inl rfl
        · rename_i hother
          cases type with
          | restricted r => exact .inl rfl
          | composite old =>
            -- This is where evolution matters: the type of the payload is not the live one.
            refine .inr ⟨_, c₁, rfl, old, live, _, List.mem_of_find?_eq_some hfind,
              (trans_of s.Extends hc hextends).buildLive (find?_of_liveCodec hfound), ?_,
              firstDifference_cases _ _, rfl⟩
            by_contra hsame
            rw [not_or, not_not, not_not] at hsame
            obtain ⟨hfields, hdescriptor⟩ := hsame
            have hadmits : old.descriptor.admits descriptor = true := by
              have hadmits := List.find?_some hfind
              exact hadmits
            rw [← hdescriptor, hadmits, Bool.true_and] at hother
            exact hother (decide_eq_true hfields)

/-- Codecs that are chosen for descriptors do not recover from refusals, if the custom ones do
not. -/
theorem stopsAt_of_readerFor (hcustoms : ∀ b ∈ s.customs.codecs.values, StopsAtRefusals b.read)
    {descriptor : Value ω} {codec : Codec ω}
    (h : s.readerFor schema descriptor c = .ok codec c₁) : StopsAtRefusals codec.read := by
  intro schema' body
  obtain ⟨b, -, hb, rfl⟩ | ⟨type, -, ⟨b, hb, rfl⟩ | ⟨live, -, rfl⟩ | ⟨old, x, -, -, rfl⟩⟩ :=
    readerFor_cases h
  · exact hcustoms b (CustomCodecs.mem_values_of_codecFor? hb) schema' body
  · exact hcustoms b (Table.mem_values_of_find? hb) schema' body
  · exact StopsAt.sequential.readShape live schema' fun part _ => .request part
  · exact StopsAt.sequential.readOld x schema' fun part _ => .request part

/-- An object is read alike with and without evolution, unless a type is refused. -/
theorem readWithin_unless (hcustoms : ∀ b ∈ s.customs.codecs.values, StopsAtRefusals b.read)
    (room : Nat) (v : Value ω) (hc : s.Extends .empty c) :
    Unless (s.Refuses schema) ((s.evolving true).readWithin schema room v c)
      ((s.evolving false).readWithin schema room v c) := by
  induction room generalizing v c with
  | zero => cases v <;> exact .inl rfl
  | succ room ih =>
    cases v with
    | described descriptor body =>
      show Unless _ (((s.evolving true).readerFor schema descriptor >>= fun codec =>
          (codec.read schema body).run ((s.evolving true).readWithin schema room)) c)
        (((s.evolving false).readerFor schema descriptor >>= fun codec =>
          (codec.read schema body).run ((s.evolving false).readWithin schema room)) c)
      have hextends := ((s.evolving true).moves_readerFor schema descriptor).to_final c
      obtain hsame | ⟨e, c', hrefused, he⟩ := readerFor_unless schema descriptor hc
      · -- The codec is the same, and what it asks for is read alike on the levels inside.
        cases hfound : (s.evolving true).readerFor schema descriptor c with
        | error e c₁ =>
          rw [bind_error hfound, bind_error (hsame.trans hfound)]
          exact .inl rfl
        | ok codec c₁ =>
          rw [hfound] at hextends
          rw [bind_ok hfound, bind_ok (hsame.trans hfound)]
          -- The caches stay those of the setting while one value after another is read.
          have hkeeps : ∀ q {c : Caches ω}, s.Extends .empty c →
              s.Extends .empty (final ((s.evolving true).readWithin schema room q c)) :=
            fun q c hc => trans_of s.Extends hc
              (extends_of_evolving (((s.evolving true).moves_readWithin schema room q).to_final c))
          have hcustoms' : ∀ b ∈ (s.evolving true).customs.codecs.values, StopsAtRefusals b.read :=
            hcustoms
          have hstops : StopsAtRefusals codec.read := stopsAt_of_readerFor hcustoms' hfound
          exact (hstops schema body).run_unless (I := s.Extends .empty) (fun q _ hc => ih q hc)
            hkeeps (fun _ => Refuses.isRefusal)
            (trans_of s.Extends hc (extends_of_evolving hextends))
      · exact .inr ⟨e, c', bind_error hrefused _, he⟩
    | _ => exact .inl rfl

/-! ### The cache of older shapes -/

/-- From the first caches to the second no codec of an older shape was built. -/
def SameOlder (c c' : Caches ω) : Prop := c'.evolution = c.evolution

omit [LiveObject ω] in
instance : IsPreorder (Caches ω) SameOlder where
  refl _ := rfl
  trans _ _ _ h₁ h₂ := h₂.trans h₁

/-- With evolution switched off no reader is built for an older shape. -/
theorem sameOlder_readerFor (s : Setting ω) (schema : Schema) (descriptor : Value ω) :
    Moves SameOlder ((s.evolving false).readerFor schema descriptor) := by
  unfold readerFor
  split
  · split
    · exact .pure _
    · exact .throw _
  · split
    · exact .pure _
    · refine Moves.bind ⟨evolution_of_liveCodec (s.evolving false) _⟩ fun live => ?_
      split
      · exact .pure _
      · split
        · exact .throw _
        · -- An older shape is refused before its codec is asked for.
          exact (Moves.throw _)

/-- By induction on the room: with evolution switched off no reader inside is built for an older
shape. -/
theorem sameOlder_readWithin (s : Setting ω) (schema : Schema) (room : Nat) (v : Value ω) :
    Moves SameOlder ((s.evolving false).readWithin schema room v) := by
  induction room generalizing v with
  | zero => cases v <;> exact .throw _
  | succ room ih =>
    cases v with
    | described descriptor body =>
      exact (s.sameOlder_readerFor schema descriptor).bind fun codec => Exchange.moves_run ih _
    | _ => exact .throw _

end Setting

/-! ### Decoding -/

namespace Factory

/-- A new factory in a setting, with evolution switched on or off. -/
def fresh (s : Setting ω) (evolution : Bool) : Factory ω := ⟨s.evolving evolution, .empty⟩

variable [LiveObject ω] {bytes : List UInt8} {t : HostType} {f : Factory ω}

/-- In one setting, decoding with evolution switched off gives the same answer and builds the same
codecs, or ends with the refusal of a type of the payload. -/
theorem decode_fresh_cases {s : Setting ω} (hcustoms : ∀ b ∈ s.customs.codecs.values,
    StopsAtRefusals b.read) (t : HostType) (bytes : List UInt8) :
    (outcome (decode t bytes (fresh s false)) = outcome (decode t bytes (fresh s true)) ∧
      (final (decode t bytes (fresh s false))).caches =
        (final (decode t bytes (fresh s true))).caches) ∨
    ∃ (envelope : Envelope ω) (e : Error),
      Envelope.parse bytes s.config.maxDepth = .ok envelope ∧ s.Refuses envelope.schema e ∧
        outcome (decode t bytes (fresh s false)) = .error e := by
  -- Opening a payload does not look at evolution.
  have hopen : openPayload t bytes (fresh s false) = openPayload t bytes (fresh s true) := rfl
  rw [outcome_decode_eq, outcome_decode_eq, caches_decode, caches_decode, hopen]
  cases hpayload : openPayload t bytes (fresh s true) with
  | error err => exact .inl ⟨rfl, rfl⟩
  | ok envelope =>
    have hread : Unless (s.Refuses envelope.schema)
        ((s.evolving true).readWithin envelope.schema s.config.maxDepth envelope.body .empty)
        ((s.evolving false).readWithin envelope.schema s.config.maxDepth envelope.body .empty) :=
      Setting.readWithin_unless hcustoms _ _ (refl (r := s.Extends) .empty)
    -- A refusal of the body is the outcome, since there is nothing left to be done.
    obtain hsame | ⟨e, c, hrefused, he⟩ := hread
    · exact .inl ⟨congrArg (fun r => outcome r >>= Value.downcast (.ofHost t)) hsame,
        congrArg final hsame⟩
    · refine .inr ⟨envelope, e, parse_of_openPayload hpayload, he, ?_⟩
      exact congrArg (fun r => outcome r >>= Value.downcast (.ofHost t)) hrefused

/-- Decoding with evolution switched off gives the same answer and builds the same codecs as with
evolution switched on, unless a type of the payload is refused, where custom codecs do not recover
from refusals and no descriptor belongs to two of them.  The two factories are new, and may scan
their custom codecs in different orders.  A codec of an older shape is never built. -/
theorem decode_without_evolution {s s' : Setting ω} (hsame : s.Rescans s') (t : HostType)
    (bytes : List UInt8) :
    (s.customs.Apart → (∀ b ∈ s.customs.codecs.values, StopsAtRefusals b.read) →
      (outcome (decode t bytes (fresh s' false)) = outcome (decode t bytes (fresh s true)) ∧
        (final (decode t bytes (fresh s' false))).caches =
          (final (decode t bytes (fresh s true))).caches) ∨
      ∃ (envelope : Envelope ω) (e : Error),
        Envelope.parse bytes s.config.maxDepth = .ok envelope ∧ s.Refuses envelope.schema e ∧
          outcome (decode t bytes (fresh s' false)) = .error e) ∧
    ∀ c, (final (decode t bytes ⟨s'.evolving false, c⟩)).caches.evolution = c.evolution := by
  constructor
  · intro hapart hcustoms
    -- The order is settled first; then the two factories are in one setting.
    obtain ⟨houtcome, hcaches⟩ := decode_rescans (hsame.evolving false) hapart t bytes
    rw [show fresh s' false = ⟨s'.evolving false, .empty⟩ from rfl, houtcome, hcaches]
    exact decode_fresh_cases hcustoms t bytes
  · intro c
    rw [caches_decode]
    cases openPayload t bytes ⟨s'.evolving false, c⟩ with
    | error err => rfl
    | ok envelope => exact (s'.sameOlder_readWithin envelope.schema _ envelope.body).to_final c

end Factory

/-! ### Old boxes -/

namespace Boxes

/-- What an older payload tells of boxes; they had a field without a name. -/
def oldBox : CompositeType :=
  ⟨"Box", none, [], ⟨"box", none⟩, [⟨"", "*", true⟩, ⟨"item", "*", true⟩]⟩

/-- The codec that reads them. -/
def oldBoxCodec : EvolutionCodec Entity :=
  ⟨"Box", oldBox, [some ⟨⟨"item", "*", true⟩, 1, .ofField ⟨"item", "*", true⟩⟩], boxConstructor⟩

/-- An old box as a value. -/
def anOldBox : Value Entity := .described (.symbol "box") (.list [.null, .string "hi"])

/-- The box that is read of it. -/
def aNewBox : Entity := .record 0 [("item", .string "hi")]

/-- Boxes and some custom codecs. -/
def boxesWith (customs : CustomCodecs Entity) : Setting Entity := ⟨registry, customs, .default⟩

/-- The order of scanning is all that differs. -/
theorem rescans_boxesWith {customs customs' : CustomCodecs Entity} (h : customs.Same customs') :
    (boxesWith customs).Rescans (boxesWith customs') := ⟨rfl, rfl, h⟩

/-- The nameless field of the old box has no parameter, and the other one has its own. -/
theorem make_oldBox : EvolutionCodec.make oldBox boxCodec registry = .ok oldBoxCodec := by
  have hsource : EvolutionCodec.sourceFor registry "Box" (EvolutionCodec.oldFieldsOf oldBox)
      ⟨"item", .any, false⟩ =
        .ok (some ⟨⟨"item", "*", true⟩, 1, .ofField ⟨"item", "*", true⟩⟩) := by
    show (if registry.isAssignable (FieldType.parse "*") false .any false then _ else _) = _
    rw [parse_any]
    rfl
  show ([⟨"item", .any, false⟩].mapM (EvolutionCodec.sourceFor registry "Box"
    (EvolutionCodec.oldFieldsOf oldBox)) >>= _) = _
  rw [List.mapM_cons, hsource]
  rfl

/-- The old box is read by its second field, whatever the schema. -/
theorem read_oldBoxCodec (schema : Schema) :
    oldBoxCodec.read schema (.list [.null, .string "hi"]) = pure aNewBox := by
  have hitem : PropertyCodec.read (.ofField ⟨"item", "*", true⟩) schema (.string "hi") =
      pure (.string "hi" : Value Entity) := by
    show readTyped schema "item" (FieldType.parse "*") (.string "hi") = _
    rw [parse_any, readTyped_any]
    rfl
  show ((do
    let v ← PropertyCodec.read (.ofField ⟨"item", "*", true⟩) schema (.string "hi")
    return [v]) >>= fun args => (monadLift (boxConstructor.build args) :
      Reading Entity Entity)) = _
  rw [hitem]
  rfl

section Reading

variable (customs : CustomCodecs Entity) (schema : Schema) (hcustom : customs.codec? "Box" = none)
  (hfind : schema.findByDescriptor? (.symbol "box" : Value Entity) = some (.composite oldBox))

include hcustom hfind

/-- The fields differ only in a name that is empty, so the refusal names no field. -/
theorem readerFor_oldBox (evolution : Bool) :
    outcome (((boxesWith customs).evolving evolution).readerFor schema (.symbol "box") .empty) =
      if evolution then .ok (.evolution oldBoxCodec)
      else .error (.incompatible "Box" "" .evolutionDisabled) := by
  have hcustom' : ((boxesWith customs).evolving evolution).customs.codec?
      (TypeNotation.composite oldBox).name = none := hcustom
  have hlive : ((boxesWith customs).evolving evolution).liveCodec
      (TypeNotation.composite oldBox).name .empty =
        .ok boxCodec ⟨⟨[("Box", boxCodec)]⟩, .empty⟩ :=
    Setting.liveCodec_of_shape rfl rfl build_box
  -- The fields differ, so that the default codec is not chosen although the descriptor fits.
  have hother : (boxCodec.composite.descriptor.admits (.symbol "box" : Value Entity) &&
      Setting.sameFields (.composite oldBox) boxCodec) = false := by
    rw [show Setting.sameFields (.composite oldBox) boxCodec = false from rfl, Bool.and_false]
  unfold Setting.readerFor
  rw [hfind]
  simp only [hcustom']
  rw [bind_ok hlive, hother, if_neg Bool.false_ne_true]
  cases evolution with
  | false => rfl
  | true =>
    have hold := Setting.evolutionCodec_of_make (s := (boxesWith customs).evolving true) rfl
      (Setting.liveCodec_of_find? (c := ⟨⟨[("Box", boxCodec)]⟩, .empty⟩) rfl) make_oldBox
    show outcome ((((boxesWith customs).evolving true).evolutionCodec oldBox >>= _)
      ⟨⟨[("Box", boxCodec)]⟩, .empty⟩) = _
    rw [bind_ok hold]
    rfl

/-- The old box is read as a new one, or refused. -/
theorem readWithin_oldBox (evolution : Bool) (room : Nat) :
    outcome (((boxesWith customs).evolving evolution).readWithin schema (room + 1) anOldBox
        .empty) =
      if evolution then .ok aNewBox else .error (.incompatible "Box" "" .evolutionDisabled) := by
  have hreader := readerFor_oldBox customs schema hcustom hfind evolution
  show outcome ((((boxesWith customs).evolving evolution).readerFor schema (.symbol "box") >>=
    fun codec => (codec.read schema _).run _) .empty) = _
  cases evolution with
  | false =>
    cases h : ((boxesWith customs).evolving false).readerFor schema (.symbol "box") .empty with
    | ok codec c =>
      rw [h] at hreader
      cases hreader
    | error e c =>
      rw [h] at hreader
      cases hreader
      rw [bind_error h]
      rfl
  | true =>
    have hread : (Codec.evolution oldBoxCodec).read schema (.list [.null, .string "hi"]) =
        pure aNewBox := read_oldBoxCodec schema
    rw [bind_ok (eq_ok_of_outcome hreader), hread]
    rfl

end Reading

/-- The envelope of an old box. -/
def oldEnvelope : Envelope Entity := ⟨anOldBox, ⟨[.composite oldBox]⟩⟩

/-- The envelope of a note with an old box. -/
def notedEnvelope : Envelope Entity :=
  ⟨.described (.symbol "note") anOldBox, ⟨[.composite (noteType false), .composite oldBox]⟩⟩

/-- The payloads of the box and of the note parse to their envelopes. -/
theorem parse_oldBox : ∀ e ∈ [oldEnvelope, notedEnvelope],
    Envelope.parse (header ++ e.toValue.encode.bytes) 64 = .ok e := by
  have hlimits : ∀ e ∈ [oldEnvelope, notedEnvelope],
      e.toValue.encode.failure.isNone = true ∧ e.toValue.nesting ≤ 64 := by decide +kernel
  have hold : (TypeNotation.composite oldBox).Distinct := by
    show ["", "item"].Nodup
    decide
  have hdistinct : ∀ e ∈ [oldEnvelope, notedEnvelope], e.schema.Distinct := by
    refine List.forall_mem_cons.2 ⟨List.forall_mem_singleton.2 hold, List.forall_mem_singleton.2 ?_⟩
    exact List.forall_mem_cons.2 ⟨List.nodup_singleton "text", List.forall_mem_singleton.2 hold⟩
  intro e he
  obtain ⟨hcomplete, hnesting⟩ := hlimits e he
  exact Envelope.parse_toBytes (Envelope.toBytes_eq_ok_iff.2
    ⟨Option.isNone_iff_eq_none.1 hcomplete, rfl⟩) (hdistinct e he) hnesting

/-- The payload of an old box. -/
def oldPayload : List UInt8 := header ++ oldEnvelope.toValue.encode.bytes

/-- The payload of a note with an old box. -/
def notedPayload : List UInt8 := header ++ notedEnvelope.toValue.encode.bytes

/-- A codec of notes that leaves out what it cannot read. -/
def forgiving : CustomCodec Entity :=
  { (note false).toCodec with
    read := fun _ body => do
      try return .record 1 [("text", .live (← readObject body))]
      catch _ => return .record 1 [] }

/-- The codec with what it tells of notes. -/
def forgivingCodecs : CustomCodecs Entity :=
  ⟨⟨[("Note", ⟨forgiving, .composite (noteType false)⟩)]⟩,
    ⟨[(Entity.slotType 1, "Note")]⟩, .inserted⟩

/-- The codec of notes asks for the value inside, and takes an error for an answer. -/
theorem run_forgiving {σ : Type} (serve : Value Entity → EStateM Error σ Entity) (schema : Schema)
    (v : Value Entity) (s : σ) : outcome ((forgiving.read schema v).run serve s) =
      .ok (.record 1 (match outcome (serve v s) with
        | .ok object => [("text", .live object)]
        | .error _ => [])) := by
  show outcome ((Exchange.ask v _).run serve s) = _
  rw [run_ask]
  cases outcome (serve v s) <;> rfl

end Boxes

namespace Factory

open Boxes

/-- Where no custom codec is in the way, the payload of an old box is read or refused as the value
is. -/
theorem decode_oldBox {customs : CustomCodecs Entity} (hcustom : customs.codec? "Box" = none)
    (hhost : customs.codecOf? (Entity.slotType 0) = none) (evolution : Bool) :
    outcome (decode (Entity.slotType 0) oldPayload (fresh (boxesWith customs) evolution)) =
      if evolution then .ok aNewBox else .error (.incompatible "Box" "" .evolutionDisabled) := by
  have hparse : Envelope.parse oldPayload (fresh (boxesWith customs) evolution).config.maxDepth =
      .ok oldEnvelope := parse_oldBox _ List.mem_cons_self
  have hname : (fresh (boxesWith customs) evolution).nameOfHost (Entity.slotType 0) =
      .ok "Box" := by
    have hhost' : (fresh (boxesWith customs) evolution).customs.codecOf? (Entity.slotType 0) =
        none := hhost
    rw [Setting.nameOfHost, hhost']
    rfl
  have hopen : openPayload (Entity.slotType 0) oldPayload (fresh (boxesWith customs) evolution) =
      .ok oldEnvelope := by
    rw [openPayload_of_parse hparse, hname]
    rfl
  have hread := readWithin_oldBox customs oldEnvelope.schema hcustom rfl evolution 63
  rw [outcome_decode_eq, hopen]
  show outcome (((boxesWith customs).evolving evolution).readWithin oldEnvelope.schema (63 + 1)
    anOldBox .empty) >>= _ = _
  rw [hread]
  cases evolution <;> rfl

/-- The note is read either way, with the box in it or without. -/
theorem decode_noted (evolution : Bool) :
    outcome (decode (Entity.slotType 1) notedPayload
        (fresh (boxesWith forgivingCodecs) evolution)) =
      .ok (.record 1 (if evolution then [("text", .live aNewBox)] else [])) := by
  have hparse : Envelope.parse notedPayload
      (fresh (boxesWith forgivingCodecs) evolution).config.maxDepth = .ok notedEnvelope :=
    parse_oldBox _ (List.mem_cons_of_mem _ List.mem_cons_self)
  have hopen : openPayload (Entity.slotType 1) notedPayload
      (fresh (boxesWith forgivingCodecs) evolution) = .ok notedEnvelope := by
    rw [openPayload_of_parse hparse]
    rfl
  -- The note itself is told as it is now, so that its codec is chosen either way.
  have hreader : ((boxesWith forgivingCodecs).evolving evolution).readerFor notedEnvelope.schema
      (.symbol "note") .empty =
        .ok (.custom ⟨forgiving, .composite (noteType false)⟩) .empty := rfl
  have hread := readWithin_oldBox forgivingCodecs notedEnvelope.schema rfl rfl evolution 62
  rw [outcome_decode_eq, hopen]
  show outcome ((((boxesWith forgivingCodecs).evolving evolution).readerFor notedEnvelope.schema
    (.symbol "note") >>= fun codec => (codec.read notedEnvelope.schema anOldBox).run _) .empty) >>=
      _ = _
  rw [bind_ok hreader]
  show outcome ((forgiving.read notedEnvelope.schema anOldBox).run
    (((boxesWith forgivingCodecs).evolving evolution).readWithin notedEnvelope.schema (62 + 1))
      .empty) >>= _ = _
  rw [run_forgiving, hread]
  cases evolution <;> rfl

/-- Without evolution a box is refused that had a field without a name, so that the refusal names no
field; a note that may do without the box in it is read, but without the box; and a new factory that
scans two codecs of one descriptor in another order reads another object. -/
theorem not_decode_without_evolution :
    (Envelope.parse oldPayload 64 = .ok oldEnvelope ∧
      oldEnvelope.schema.types = [.composite oldBox] ∧
      (boxesWith (.empty .inserted)).buildLive "Box" = .ok boxCodec ∧
      oldBox.fields ≠ boxCodec.composite.fields ∧
      outcome (decode (Entity.slotType 0) oldPayload (fresh (boxesWith (.empty .inserted)) true)) =
        .ok aNewBox ∧
      outcome (decode (Entity.slotType 0) oldPayload (fresh (boxesWith (.empty .inserted)) false)) =
        .error (.incompatible "Box" "" .evolutionDisabled)) ∧
    (outcome (decode (Entity.slotType 1) notedPayload (fresh (boxesWith forgivingCodecs) true)) =
        .ok (.record 1 [("text", .live aNewBox)]) ∧
      outcome (decode (Entity.slotType 1) notedPayload (fresh (boxesWith forgivingCodecs) false)) =
        .ok (.record 1 [])) ∧
    (Twins.setting .inserted true).Rescans (Twins.setting .reversed true) ∧
    outcome (decode (Entity.slotType 0) Twins.payload
      (fresh (Twins.setting .inserted true) true)) = .ok (Twins.held 1) ∧
    outcome (decode (Entity.slotType 0) Twins.payload
      (fresh (Twins.setting .reversed true) false)) = .ok (Twins.held 2) := by
  -- Switching evolution replaces the flag that the setting came with.
  have hfresh : ∀ order evolution, fresh (Twins.setting order true) evolution =
      ⟨Twins.setting order evolution, .empty⟩ := fun _ _ => rfl
  rw [hfresh, hfresh]
  exact ⟨⟨parse_oldBox _ List.mem_cons_self, rfl, build_box, by decide, decode_oldBox rfl rfl true,
    decode_oldBox rfl rfl false⟩, ⟨decode_noted true, decode_noted false⟩, Twins.rescans true,
    (Twins.decode_held true).1, (Twins.decode_held false).2⟩

/-- With the codec of notes that stops at refusals, an old box is refused where evolution is
switched off, in whatever order the new factory scans. -/
theorem decode_without_evolution_box :
    (boxesWith (factory false).customs).Rescans (boxesWith labelledFactory.customs) ∧
    (factory false).customs.Apart ∧
    (∀ b ∈ (factory false).customs.codecs.values, StopsAtRefusals b.read) ∧
    ∃ (envelope : Envelope Entity) (e : Error), Envelope.parse oldPayload 64 = .ok envelope ∧
      (boxesWith (factory false).customs).Refuses envelope.schema e ∧
      outcome (decode (Entity.slotType 0) oldPayload
        (fresh (boxesWith labelledFactory.customs) false)) = .error e := by
  have hsame : (boxesWith (factory false).customs).Rescans (boxesWith labelledFactory.customs) :=
    rescans_boxesWith upgrades_box.customs.toSame
  have hcustoms : ∀ b ∈ (factory false).customs.codecs.values, StopsAtRefusals b.read :=
    List.forall_mem_singleton.2 (stopsAtRefusals_record (note false))
  refine ⟨hsame, apart_note false, hcustoms, ?_⟩
  obtain ⟨heq, -⟩ | hrefused := (decode_without_evolution hsame (Entity.slotType 0) oldPayload).1
    (apart_note false) hcustoms
  · rw [decode_oldBox rfl rfl, decode_oldBox rfl rfl] at heq
    cases heq
  · exact hrefused

end Factory

end SelfDescribing
