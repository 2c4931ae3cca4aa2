import SelfDescribing.Proofs.Factory.FieldOrder
import SelfDescribing.Proofs.Factory.Rescanning
import SelfDescribing.Proofs.Schema.Fingerprint

namespace SelfDescribing

open Steps

/-!
# Caches do not show

What a factory answers does not depend on what it was asked before.  A new factory with the same
registry, custom codecs and configuration answers alike, though it may scan the custom codecs in
another order, except where two of them have one descriptor.

* `Call`, `Factory.after` — what a factory is asked, and the factory after it was asked.
* `Factory.answers_after` — encoding and decoding after any calls give what they give on a new
  factory.

Encoding and decoding are compared with functions that keep no caches, from
`Proofs/Factory/WritingAnew` and `Proofs/Factory/Uncached`.  With the caches gone on both sides, the
scan order is the only difference left, which `Proofs/Factory/Rescanning` deals with.  Fingerprints
enter because codecs of older shapes are kept under them.
-/

variable {ω : Type}

namespace Setting

variable {s : Setting ω} {known : CompositeType → Prop}

/-- More shapes may be known. -/
theorem Keeps.mono {known' : CompositeType → Prop} {c : Caches ω} (h : s.Keeps known c)
    (more : ∀ old, known old → known' old) : s.Keeps known' c :=
  ⟨h.built, fun hx => more _ (h.known hx)⟩

/-- Codecs found for a name are custom ones or built as the default. -/
theorem Keeps.codecForName {c : Caches ω} (h : s.Keeps known c) (name : String) :
    s.Keeps known (final (s.codecForName name c)) := by
  unfold Setting.codecForName
  cases s.customs.codec? name with
  | some b => exact h
  | none =>
    dsimp only
    rw [final_bind_pure]
    exact (s.simulates_liveCodec known name).keeps h

end Setting

/-! ### Calls -/

/-- What a factory is asked for. -/
inductive Call (ω : Type) where
  | encode (object : ω)
  | decode (t : HostType) (bytes : List UInt8)
  | describe (name : String)
  | liveCodec (name : String)
  | evolutionCodec (old : CompositeType)

/-- The old shapes that a call shows to a factory. -/
def Call.Shows [LiveObject ω] (call : Call ω) (limit : Nat) (old : CompositeType) : Prop :=
  match call with
  | .decode _ bytes =>
    ∃ e : Envelope ω, Envelope.parse bytes limit = .ok e ∧ .composite old ∈ e.schema.types
  | .evolutionCodec given => old = given
  | .encode _ | .describe _ | .liveCodec _ => False

namespace Factory

variable [LiveObject ω]

/-- The factory after a call, successful or not. -/
def call (f : Factory ω) : Call ω → Factory ω
  | .encode object => final (f.encode object)
  | .decode t bytes => final (f.decode t bytes)
  | .describe name => final (f.describe name)
  | .liveCodec name => final (f.liveCodec name)
  | .evolutionCodec old => final (f.evolutionCodec old)

/-- The factory after some calls. -/
def after (f : Factory ω) (calls : List (Call ω)) : Factory ω := calls.foldl call f

/-- The codecs that a factory of a setting keeps were built in it, and those of old shapes from
known ones. -/
structure KeepsIn (s : Setting ω) (known : CompositeType → Prop) (f : Factory ω) : Prop where
  setting : f.toSetting = s
  caches : s.Keeps known f.caches

variable {s : Setting ω} {known : CompositeType → Prop} {f g : Factory ω} {α : Type}

omit [LiveObject ω] in
/-- A step of the caches keeps the setting, so that only the caches need a look. -/
theorem KeepsIn.building (h : KeepsIn s known f)
    {step : Setting ω → Setting.Building ω α}
    (hstep : s.Keeps known f.caches → s.Keeps known (final (step s f.caches))) :
    KeepsIn s known (final (building step f)) := by
  rw [final_building, h.setting]
  exact ⟨rfl, hstep h.caches⟩

omit [LiveObject ω] in
/-- More shapes may be known. -/
theorem KeepsIn.mono {known' : CompositeType → Prop} (h : KeepsIn s known f)
    (more : ∀ old, known old → known' old) : KeepsIn s known' f :=
  ⟨h.setting, h.caches.mono more⟩

/-! ### Encoding -/

/-- Encoding builds default codecs only. -/
theorem KeepsIn.encode (h : KeepsIn s known f) (object : ω) :
    KeepsIn s known (final (encode object f)) := by
  obtain ⟨rfl, hcaches⟩ := h
  rw [(encode_cases object f).2]
  refine ⟨?_, keeps_writeObject hcaches object⟩
  rw [final_writing]

/-- Encoding gives the same, whatever codecs are kept. -/
theorem outcome_encode_of_keepsIn (hf : KeepsIn s known f) (hg : KeepsIn s known g) (object : ω) :
    outcome (encode object f) = outcome (encode object g) := by
  obtain ⟨rfl, hf⟩ := hf
  obtain ⟨hsetting, hg⟩ := hg
  rw [← hsetting] at hg
  rw [outcome_encode hf, outcome_encode hg, encodes, encodes, hsetting]

/-- What is encoded is the payload of what is written. -/
theorem outcome_encode_of_written {object : ω} {e : Envelope ω} (hf : KeepsIn s known f)
    (hwritten : s.written object = .ok e) :
    outcome (encode object f) = e.toBytes := by
  have hcaches : f.toSetting.Keeps known f.caches := by
    rw [hf.setting]
    exact hf.caches
  rw [outcome_encode hcaches, encodes, hf.setting, hwritten]
  rfl

/-! ### Decoding -/

/-- The known shapes include those that a payload lists. -/
def KnowsPayload (s : Setting ω) (known : CompositeType → Prop) (bytes : List UInt8) : Prop :=
  ∀ {e : Envelope ω}, Envelope.parse bytes s.config.maxDepth = .ok e →
    ∀ old, .composite old ∈ e.schema.types → known old

variable {t : HostType} {bytes : List UInt8}

/-- Decoding builds default codecs, and codecs of older shapes that the payload lists. -/
theorem keepsIn_decode (h : KeepsIn s known f) (hapart : Setting.TellsApart known)
    (hknown : KnowsPayload s known bytes) : KeepsIn s known (final (decode t bytes f)) := by
  unfold decode
  cases hopen : openPayload t bytes f with
  | error err =>
    rw [bind_error (inspecting_error hopen)]
    exact h
  | ok e =>
    have hparse := parse_of_openPayload hopen
    rw [h.setting] at hparse
    -- Only reading the body builds codecs.
    have hread : KeepsIn s known (final (reading e.schema (readObject e.body) f)) := by
      refine h.building fun hcaches => ?_
      rw [Setting.reading, readObject, Exchange.run_request]
      exact (Setting.simulates_readWithin hapart (hknown hparse) _ e.body).keeps hcaches
    rw [bind_ok (inspecting_eq_ok.2 ⟨hopen, rfl⟩)]
    cases hreading : reading e.schema (readObject e.body) f with
    | error err f' =>
      rw [hreading] at hread
      rw [bind_error hreading]
      exact hread
    | ok object f' =>
      rw [hreading] at hread
      rw [bind_ok hreading, final_inspecting]
      exact hread

/-- Codecs of known shapes that are kept do not change what decoding gives. -/
theorem KeepsIn.outcome_decode (h : KeepsIn s known f) (hapart : Setting.TellsApart known)
    (hknown : KnowsPayload s known bytes) : outcome (decode t bytes f) = f.decodes t bytes := by
  obtain ⟨rfl, hcaches⟩ := h
  cases hopen : openPayload t bytes f with
  | error err =>
    rw [outcome_decode_eq, decodes, hopen]
    rfl
  | ok e =>
    have hparse := parse_of_openPayload hopen
    -- What is seen of old shapes is known.
    have hseen : ∀ {old}, f.Observes e.schema old → known old := by
      rintro old (hlisted | ⟨key, x, hkept, rfl⟩)
      · exact hknown hparse old hlisted
      · exact hcaches.known hkept
    have hobserves : Setting.TellsApart (f.Observes e.schema) :=
      fun old old' hold hold' => hapart old old' (hseen hold) (hseen hold')
    exact Factory.outcome_decode hcaches.built hparse hobserves

/-- Decoding gives the same, whatever codecs of known shapes are kept. -/
theorem outcome_decode_of_keepsIn (hf : KeepsIn s known f) (hg : KeepsIn s known g)
    (hapart : Setting.TellsApart known) (hknown : KnowsPayload s known bytes) :
    outcome (decode t bytes f) = outcome (decode t bytes g) := by
  rw [hf.outcome_decode hapart hknown, hg.outcome_decode hapart hknown]
  obtain ⟨setting, caches⟩ := f
  obtain ⟨setting', caches'⟩ := g
  obtain ⟨rfl, -⟩ := hf
  obtain ⟨rfl, -⟩ := hg
  rfl

/-! ### Payloads of envelopes -/

variable {e : Envelope ω} {f' : Factory ω} {object : ω}

/-- A payload that was written lists what its envelope does, since nothing else is parsed from it.
-/
theorem knowsPayload_of_toBytes (hbytes : e.toBytes = .ok bytes)
    (hknown : ∀ old, .composite old ∈ e.schema.types → known old) : KnowsPayload s known bytes := by
  intro e' hparse old hold
  rw [Envelope.eq_of_parse_toBytes hbytes hparse] at hold
  exact hknown old hold

section Payload

variable (hf : KeepsIn s known f) (hapart : Setting.TellsApart known)
  (hbytes : e.toBytes = .ok bytes) (hknown : ∀ old, .composite old ∈ e.schema.types → known old)

include hf hapart hbytes hknown

/-- What is decoded from a payload is what is read of its envelope. -/
theorem reads_of_decode (hdecode : decode t bytes f = .ok object f') :
    Envelope.parse bytes s.config.maxDepth = .ok e ∧
      s.reads e.schema s.config.maxDepth e.body = .ok object ∧ KeepsIn s known f' := by
  have hpayload : KnowsPayload s known bytes := knowsPayload_of_toBytes hbytes hknown
  have hkeeps := keepsIn_decode (t := t) hf hapart hpayload
  have houtcome := hf.outcome_decode (t := t) hapart hpayload
  rw [hdecode] at hkeeps houtcome
  obtain ⟨e', hopen, h⟩ := except_bind_eq_ok.1 houtcome.symm
  obtain ⟨read, hread, h⟩ := except_bind_eq_ok.1 h
  obtain ⟨rfl, -⟩ := downcast_ofHost_eq_ok_iff.1 h
  have hparse := parse_of_openPayload hopen
  cases Envelope.eq_of_parse_toBytes hbytes hparse
  rw [hf.setting] at hparse hread
  exact ⟨hparse, hread, hkeeps⟩

/-- Decoding a payload whose root has the expected type is reading it. -/
theorem outcome_decode_root {name : String} (hdistinct : e.schema.Distinct)
    (hnesting : e.toValue.nesting ≤ s.config.maxDepth) (hname : s.nameOfHost t = .ok name)
    (hroot : rootType e = .ok name) : outcome (decode t bytes f) =
      s.reads e.schema s.config.maxDepth e.body >>= Value.downcast (.ofHost t) := by
  have houtcome := hf.outcome_decode (t := t) hapart (knowsPayload_of_toBytes hbytes hknown)
  obtain ⟨rfl, hcaches⟩ := hf
  have hparse := Envelope.parse_toBytes hbytes hdistinct hnesting
  have hopen : openPayload t bytes f = .ok e := by
    rw [openPayload_of_parse hparse, hname, hroot]
    show (if name ≠ name then _ else _) = _
    rw [if_neg (not_not_intro rfl)]
  rw [houtcome, decodes, hopen]
  rfl

/-- What is read of an envelope is decoded from its payload. -/
theorem decode_of_reads {name : String} (hdistinct : e.schema.Distinct)
    (hnesting : e.toValue.nesting ≤ s.config.maxDepth)
    (hname : s.nameOfHost (LiveObject.hostType object) = .ok name) (hroot : rootType e = .ok name)
    (hread : s.reads e.schema s.config.maxDepth e.body = .ok object) :
    ∃ f', decode (LiveObject.hostType object) bytes f = .ok object f' ∧ KeepsIn s known f' := by
  have hkeeps := keepsIn_decode (t := LiveObject.hostType object) hf hapart
    (knowsPayload_of_toBytes hbytes hknown)
  have houtcome := outcome_decode_root hf hapart hbytes hknown hdistinct hnesting hname hroot
  rw [hread] at houtcome
  exact ⟨_, eq_ok_of_outcome (houtcome.trans (downcast_ofHost_eq_ok_iff.2 ⟨rfl, rfl⟩)), hkeeps⟩

end Payload

/-! ### Calls -/

omit [LiveObject ω] in
/-- A new factory keeps no codec. -/
theorem keepsIn_new (s : Setting ω) (known : CompositeType → Prop) : KeepsIn s known ⟨s, .empty⟩ :=
  ⟨rfl, refl (r := s.Extends) .empty, fun h => nomatch h⟩

/-- One case for each call: the codecs built are default ones, or of shapes that the call shows. -/
theorem keepsIn_call (h : KeepsIn s known f) (hapart : Setting.TellsApart known) {c : Call ω}
    (hshown : ∀ old, c.Shows s.config.maxDepth old → known old) : KeepsIn s known (f.call c) := by
  cases c with
  | encode object => exact h.encode object
  | decode t bytes =>
    exact keepsIn_decode h hapart fun hparse old hold => hshown old ⟨_, hparse, hold⟩
  | describe name =>
    show KeepsIn s known (final (f.describe name))
    rw [describe, final_bind_pure]
    exact h.building fun hcaches => hcaches.codecForName name
  | liveCodec name => exact h.building (s.simulates_liveCodec known name).keeps
  | evolutionCodec old => exact h.building fun hcaches => hcaches.evolutionCodec (hshown old rfl)

/-- By induction on the calls: a factory that was shown known shapes keeps codecs of known shapes.
-/
theorem keepsIn_after {calls : List (Call ω)} (h : KeepsIn s known f)
    (hapart : Setting.TellsApart known)
    (hshown : ∀ c ∈ calls, ∀ old, c.Shows s.config.maxDepth old → known old) :
    KeepsIn s known (f.after calls) := by
  induction calls generalizing f with
  | nil => exact h
  | cons c calls ih =>
    rw [List.forall_mem_cons] at hshown
    exact ih (keepsIn_call h hapart hshown.1) hshown.2

/-- Calls build codecs and change nothing else. -/
theorem fills_call (f : Factory ω) (c : Call ω) : Fills f (f.call c) := by
  cases c with
  | encode object => exact (fills_encode object).to_final f
  | decode t bytes => exact (fills_decode t bytes).to_final f
  | describe name =>
    show Fills f (final (f.describe name))
    rw [describe, final_bind_pure]
    exact (fills_building fun s => s.fills_codecForName name).to_final f
  | liveCodec name => exact (fills_building fun s => s.fills_liveCodec name).to_final f
  | evolutionCodec old => exact (fills_building fun s => s.fills_evolutionCodec old).to_final f

/-- A call loses no codec. -/
theorem builds_call (f : Factory ω) (c : Call ω) : Builds f (f.call c) := (fills_call f c).builds

/-- By induction on the calls: none of them does. -/
theorem builds_after (f : Factory ω) (calls : List (Call ω)) : Builds f (f.after calls) := by
  induction calls generalizing f with
  | nil => exact refl f
  | cons c calls ih => exact trans_of Builds (builds_call f c) (ih (f.call c))

/-- New factories encode alike, in whatever orders they scan. -/
theorem outcome_encode_rescans {s' : Setting ω} (h : s.Rescans s') (object : ω) :
    outcome (encode object ⟨s', .empty⟩) = outcome (encode object ⟨s, .empty⟩) := by
  have hnew : ∀ s : Setting ω, outcome (encode object ⟨s, .empty⟩) = encodes ⟨s, .empty⟩ object :=
    fun s => outcome_encode (keepsIn_new s fun _ => True).caches object
  rw [hnew, hnew, encodes, encodes, h.written]

/-- After any calls, whether they succeed or fail, a factory encodes as a new one does.  It decodes
as a new one does, if no descriptor belongs to two of its custom codecs, and no two of the old
shapes that the calls and the payload show have one name and one fingerprint but different fields.
The new factory has the same registry and configuration, and the same custom codecs with what they
tell of their types, but may scan them in another order. -/
theorem answers_after {s s' : Setting ω} (hsame : s.Rescans s') (calls : List (Call ω)) :
    (∀ object, outcome (encode object (after ⟨s, .empty⟩ calls)) =
      outcome (encode object ⟨s', .empty⟩)) ∧
    ∀ t bytes, s.customs.Apart →
      Setting.TellsApart (fun old => ∃ c ∈ .decode t bytes :: calls,
        c.Shows s.config.maxDepth old) →
      outcome (decode t bytes (after ⟨s, .empty⟩ calls)) =
        outcome (decode t bytes ⟨s', .empty⟩) := by
  constructor
  · intro object
    -- Encoding keeps default codecs only, so that any shapes may be known.
    have hbuilds := builds_after ⟨s, .empty⟩ calls
    have hafter : KeepsIn s (fun _ => True) (after ⟨s, .empty⟩ calls) :=
      ⟨hbuilds.setting, hbuilds.caches, fun _ => trivial⟩
    rw [outcome_encode_rescans hsame]
    exact outcome_encode_of_keepsIn hafter (keepsIn_new s _) object
  · intro t bytes hscan hapart
    -- For decoding, the known shapes are those that the calls and the payload show.
    have hnew := keepsIn_new s fun old =>
      ∃ c ∈ .decode t bytes :: calls, c.Shows s.config.maxDepth old
    have hafter := keepsIn_after hnew hapart
      fun c hc old hold => ⟨c, List.mem_cons_of_mem _ hc, hold⟩
    rw [(decode_rescans hsame hscan t bytes).1]
    exact outcome_decode_of_keepsIn hafter hnew hapart
      fun hparse old hold => ⟨_, List.mem_cons_self, _, hparse, hold⟩

end Factory

/-! ### Twins -/

namespace Twins

/-- The codec of the records of a slot, which tells some supertypes of them. -/
def telling (provides : List String) : BoundCodec Entity :=
  ⟨(codec 1 "Left" ⟨"twin", none⟩).codec, .composite ⟨"Left", none, provides, ⟨"twin", none⟩, []⟩⟩

/-- A factory with this codec, whose registry allows the type's name. -/
def allowing (provides : List String) : Factory Entity :=
  ⟨⟨Registry.empty.allow "Left", (CustomCodecs.empty .inserted).register (telling provides),
    .default⟩, .empty⟩

/-- A record for the codec. -/
def twin : Entity := .record 1 [("text", .string "hi")]

/-- What the codec tells is looked up once, when it is registered. -/
theorem registerCustom_left (r : Registry Entity) :
    Factory.registerCustom (codec 1 "Left" ⟨"twin", none⟩).codec (.new r .inserted) =
      .ok () ⟨⟨r, (CustomCodecs.empty .inserted).register (telling (r.provides "Left")), .default⟩,
        .empty⟩ := rfl

/-- A type that is allowed provides itself. -/
theorem provides_allowed : ((Registry.empty (ω := Entity)).allow "Left").provides "Left" =
    ["Left"] := by
  simp [Registry.provides, walk, Registry.toldSupertypes, Registry.isTold, Registry.isOptedIn,
    Registry.shape?, Registry.allow, Registry.empty, Table.find?, Table.empty]

/-- The payload of the record tells these supertypes. -/
def twinEnvelope (provides : List String) : Envelope Entity :=
  ⟨.described (.symbol "twin") (.string "hi"), ⟨[(telling provides).type]⟩⟩

/-- The notation that the codec was registered with is what the payload tells. -/
theorem encode_twin (provides : List String) :
    outcome (Factory.encode twin (allowing provides)) = (twinEnvelope provides).toBytes := by
  rw [(Factory.encode_cases twin (allowing provides)).1]
  rfl

/-- Payloads that tell different supertypes differ. -/
theorem toBytes_twin : (twinEnvelope []).toBytes ≠ (twinEnvelope ["Left"]).toBytes := by
  have hcomplete : ∀ provides ∈ [[], ["Left"]],
      (twinEnvelope provides).toValue.encode.failure.isNone = true := by decide +kernel
  have hbytes : ∀ provides ∈ [[], ["Left"]], (twinEnvelope provides).toBytes =
      .ok (header ++ (twinEnvelope provides).toValue.encode.bytes) := fun provides h =>
    Envelope.toBytes_eq_ok_iff.2 ⟨Option.isNone_iff_eq_none.1 (hcomplete provides h), rfl⟩
  rw [hbytes _ List.mem_cons_self, hbytes _ (List.mem_cons_of_mem _ List.mem_cons_self)]
  intro h
  have hdiffer : header ++ (twinEnvelope []).toValue.encode.bytes ≠
      header ++ (twinEnvelope ["Left"]).toValue.encode.bytes := by decide +kernel
  exact hdiffer (Except.ok.inj h)

/-- One payload shows one shape of each name. -/
theorem tellsApart_held : Setting.TellsApart fun old =>
    ∃ c ∈ [.decode (Entity.slotType 0) payload], (c : Call Entity).Shows 64 old := by
  have hshown : ∀ old, (∃ c ∈ [.decode (Entity.slotType 0) payload],
      (c : Call Entity).Shows 64 old) → old = ⟨"Holder", none, [], ⟨"holder", none⟩, []⟩ := by
    rintro old ⟨c, hc, hshows⟩
    obtain rfl := List.mem_singleton.1 hc
    obtain ⟨e, hparse, hold⟩ := hshows
    cases hparse.symm.trans parse_held
    exact TypeNotation.composite.inj (List.mem_singleton.1 hold)
  intro old old' hold hold' _
  rw [hshown old hold, hshown old' hold']

end Twins

namespace Factory

open Twins

/-- A new factory that scans two codecs of one descriptor in another order decodes otherwise.  And
one whose codec tells more of its type, because the type's name was allowed in the meantime, encodes
otherwise. -/
theorem not_answers_after :
    ((setting .inserted true).Rescans (setting .reversed true) ∧
      Setting.TellsApart (fun old => ∃ c ∈ [.decode (Entity.slotType 0) payload],
        (c : Call Entity).Shows (setting .inserted true).config.maxDepth old) ∧
      outcome (decode (Entity.slotType 0) payload (after ⟨setting .inserted true, .empty⟩ [])) ≠
        outcome (decode (Entity.slotType 0) payload ⟨setting .reversed true, .empty⟩)) ∧
    ∃ f : Factory Entity,
      registerCustom (codec 1 "Left" ⟨"twin", none⟩).codec (.new .empty .inserted) = .ok () f ∧
      registerCustom (codec 1 "Left" ⟨"twin", none⟩).codec
        (.new (f.registry.allow "Left") .inserted) = .ok () (allowing ["Left"]) ∧
      outcome (encode twin (after { f with registry := f.registry.allow "Left" } [])) ≠
        outcome (encode twin (allowing ["Left"])) := by
  obtain ⟨hinserted, hreversed⟩ := decode_held true
  refine ⟨⟨rescans true, tellsApart_held, ?_⟩, ?_⟩
  · show outcome (decode _ payload ⟨setting .inserted true, .empty⟩) ≠ _
    rw [hinserted, hreversed]
    rintro ⟨⟩
  -- The codec asks for the supertypes of its name when it is registered, before or after the name
  -- is allowed.
  · refine ⟨{ allowing [] with registry := .empty }, ?_, ?_, ?_⟩
    · rw [registerCustom_left, Registry.provides_eq_nil rfl rfl]
      rfl
    · show registerCustom _ (.new (Registry.empty.allow "Left") .inserted) = _
      rw [registerCustom_left, provides_allowed]
      rfl
    · show outcome (encode twin (allowing [])) ≠ _
      rw [encode_twin, encode_twin]
      exact toBytes_twin

end Factory

/-! ### Pairs of texts -/

namespace Pairs

/-- The payload of a pair that claims another descriptor and may have its parts swapped. -/
def payload (swapped : Bool) : List UInt8 :=
  header ++ (envelope false other swapped).toValue.encode.bytes

/-- Calls that fail and calls that build codecs, one of them for the swapped fields. -/
def calls : List (Call Entity) :=
  [.decode (Entity.slotType 0) [], .describe "Pair", .evolutionCodec (told false (live false) true),
    .encode (pair false "l" "r"), .decode (Entity.slotType 0) (payload true)]

/-- The payload shows the shape in its schema and no other. -/
theorem eq_of_shows {swapped : Bool} {old : CompositeType}
    (h : (Call.decode (Entity.slotType 0) (payload swapped) : Call Entity).Shows 64 old) :
    old = told false other swapped := by
  obtain ⟨e, hparse, hold⟩ := h
  cases hparse.symm.trans (Envelope.parse_toBytes (toBytes_other false swapped)
    (distinct_told _ _ _) (nesting_other false swapped))
  exact TypeNotation.composite.inj (List.mem_singleton.1 hold)

/-- No two shapes that the calls show have one fingerprint. -/
theorem tellsApart_calls : Setting.TellsApart fun old =>
    ∃ c ∈ .decode (Entity.slotType 0) (payload false) :: calls, c.Shows 64 old := by
  -- Whatever the calls show is a shape of pairs in one of the two orders.
  have hshown : ∀ {old : CompositeType},
      (∃ c ∈ .decode (Entity.slotType 0) (payload false) :: calls, c.Shows 64 old) →
        ∃ d swapped, old = told false d swapped := by
    rintro old ⟨c, hc, hshows⟩
    simp only [calls, List.mem_cons, List.not_mem_nil, or_false] at hc
    obtain rfl | rfl | rfl | rfl | rfl | rfl := hc
    · exact ⟨_, _, eq_of_shows hshows⟩
    · obtain ⟨e, hparse, -⟩ := hshows
      cases hparse
    · exact absurd hshows id
    · exact ⟨_, _, hshows⟩
    · exact absurd hshows id
    · exact ⟨_, _, eq_of_shows hshows⟩
  -- The two orders have different fingerprints, which is computed.
  have hdigest : fingerprint "Pair" (fields false).reverse ≠ fingerprint "Pair" (fields false) := by
    decide +kernel
  intro old old' hold hold' hkey
  obtain ⟨d, swapped, rfl⟩ := hshown hold
  obtain ⟨d', swapped', rfl⟩ := hshown hold'
  have hfingerprint : fingerprint "Pair" (told false d swapped).fields =
      fingerprint "Pair" (told false d' swapped').fields := congrArg Prod.snd hkey
  cases swapped with
  | false =>
    cases swapped' with
    | false => rfl
    | true => exact absurd hfingerprint.symm hdigest
  | true =>
    cases swapped' with
    | false => exact absurd hfingerprint hdigest
    | true => rfl

/-- Pairs, and a custom codec besides. -/
def setting (order : ScanOrder) : Setting Entity :=
  { (factory false).toSetting with
    customs := (CustomCodecs.empty order).register (Twins.codec 1 "Left" ⟨"twin", none⟩) }

/-- One custom codec shares its descriptor with none. -/
theorem apart_setting : (setting .inserted).customs.Apart := by
  have hone : ∀ b ∈ (setting .inserted).customs.codecs.values,
      b = Twins.codec 1 "Left" ⟨"twin", none⟩ := fun _ => List.mem_singleton.1
  exact CustomCodecs.apart_of_forall_eq hone

end Pairs

namespace Factory

open Pairs

/-- A pair is encoded and decoded after these calls as by a new factory that scans the other way
round. -/
theorem answers_after_pairs :
    (setting .inserted).Rescans (setting .reversed) ∧ (setting .inserted).customs.Apart ∧
    outcome (encode (pair false "l" "r") (after ⟨setting .inserted, .empty⟩ calls)) =
      outcome (encode (pair false "l" "r") ⟨setting .reversed, .empty⟩) ∧
    outcome (decode (Entity.slotType 0) (payload false) (after ⟨setting .inserted, .empty⟩ calls)) =
      outcome (decode (Entity.slotType 0) (payload false) ⟨setting .reversed, .empty⟩) := by
  have hsame : (setting .inserted).Rescans (setting .reversed) :=
    ⟨rfl, rfl, fun _ => rfl, fun _ => rfl⟩
  obtain ⟨hencode, hdecode⟩ := answers_after hsame calls
  exact ⟨hsame, apart_setting, hencode _, hdecode _ _ apart_setting tellsApart_calls⟩

end Factory

end SelfDescribing
