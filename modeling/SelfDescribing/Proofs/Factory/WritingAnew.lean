import SelfDescribing.Proofs.Codec.Answering
import SelfDescribing.Proofs.Factory.Uncached
import SelfDescribing.Proofs.Factory.Writing

namespace SelfDescribing

open Steps

/-!
# Writing without caches

What writing gives does not depend on the codecs that are kept, if these were built in the same
setting.

* `Setting.writerOf`, `Setting.writes` — the codec that writes an object, and writing, with all
  codecs built anew.
* `Setting.inside`, `Setting.visits` — what is written inside an object, and the codecs of all
  objects that are written, one after the other.
* `Setting.simulates_writeWithin`, `Setting.types_writeWithin` — writing with such codecs kept gives
  the same, and notes the types of the codecs that are visited.
* `Setting.written` — the envelope of an object, which `Factory.encodes` puts into bytes.

`writes` is writing as a function of the setting and the request.  The notations are not part of it;
they are recovered from the codecs that are visited, which is how the schema of a payload can be
known without carrying out the writing.
-/

variable {ω : Type} {s : Setting ω} {known : CompositeType → Prop}

namespace Setting

/-- The codec that writes the objects of a host type, built anew. -/
def codecOf (s : Setting ω) (t : HostType) : Except Error (Codec ω) :=
  match s.customs.codecOf? t with
  | some b => .ok (.custom b)
  | none =>
    match s.registry.nameOf? t with
    | none => .error (.typeNotFound t.name)
    | some name => do return .object (← s.buildLive name)

/-- The notations with that of a codec, unless one of its name is there. -/
def noted (types : List TypeNotation) (codec : Codec ω) : List TypeNotation :=
  if types.any (fun t => decide (t.name = codec.type.name)) then types else types ++ [codec.type]

variable [LiveObject ω]

/-- The codec that writes what is requested, built anew. -/
def writerOf (s : Setting ω) (q : WriteRequest ω) : Except Error (Codec ω) := do
  let codec ← s.codecOf (LiveObject.hostType q.object)
  match q.expected with
  | none => return codec
  | some expected =>
    if s.registry.isSubtype codec.typeName expected then return codec
    else .error (.typeMismatch expected codec.typeName)

/-- Write an object where `room` levels of nesting are left, with all codecs built anew. -/
def writes (s : Setting ω) : (room : Nat) → WriteRequest ω → Except Error (Value ω)
  | 0, q => do
    let _ ← s.writerOf q
    .error (.depthExceeded s.config.maxDepth)
  | room + 1, q => do
    let codec ← s.writerOf q
    (codec.write codec.typeName q.object).eval (s.writes room)

/-- The requests that the codec of an object makes where `room` levels of nesting are left for
them. -/
def inside (s : Setting ω) (room : Nat) (q : WriteRequest ω) : List (WriteRequest ω) :=
  match s.writerOf q with
  | .error _ => []
  | .ok codec => (codec.write codec.typeName q.object).asks (s.writes room)

/-- The codecs that write an object and the objects inside it, each as often as it is used. -/
def visits (s : Setting ω) : (room : Nat) → WriteRequest ω → List (Codec ω)
  | 0, _ => []
  | room + 1, q =>
    match s.writerOf q with
    | .error _ => []
    | .ok codec => codec :: (s.inside room q).flatMap (s.visits room)

/-- The envelope of an object, with all codecs built anew. -/
def written (s : Setting ω) (object : ω) : Except Error (Envelope ω) := do
  let body ← s.writes s.config.maxDepth ⟨object, none⟩
  return ⟨body, ⟨(s.visits s.config.maxDepth ⟨object, none⟩).foldl noted []⟩⟩

/-! ### What is noted -/

omit [LiveObject ω] in
/-- Noting a type keeps what is noted already. -/
theorem prefix_noted (types : List TypeNotation) (codec : Codec ω) :
    types <+: noted types codec := by
  unfold noted
  split
  · exact List.prefix_refl types
  · exact List.prefix_append types _

omit [LiveObject ω] in
/-- A noted type is there by its name. -/
theorem exists_mem_noted (types : List TypeNotation) (codec : Codec ω) :
    ∃ t ∈ noted types codec, t.name = codec.type.name := by
  unfold noted
  split
  · rename_i hthere
    obtain ⟨t, ht, hname⟩ := List.any_eq_true.1 hthere
    exact ⟨t, ht, of_decide_eq_true hname⟩
  · exact ⟨codec.type, List.mem_append_right types List.mem_cons_self, rfl⟩

omit [LiveObject ω] in
/-- Noting a type adds the type itself, if anything. -/
theorem mem_noted {types : List TypeNotation} {codec : Codec ω} {t : TypeNotation}
    (h : t ∈ noted types codec) : t ∈ types ∨ t = codec.type := by
  unfold noted at h
  split at h
  · exact .inl h
  · obtain h | h := List.mem_append.1 h
    · exact .inl h
    · exact .inr (List.mem_singleton.1 h)

omit [LiveObject ω] in
/-- By induction on the codecs: noting all their types keeps what is noted already. -/
theorem prefix_foldl_noted (types : List TypeNotation) (codecs : List (Codec ω)) :
    types <+: codecs.foldl noted types := by
  induction codecs generalizing types with
  | nil => exact List.prefix_refl types
  | cons codec codecs ih => exact (prefix_noted types codec).trans (ih _)

omit [LiveObject ω] in
/-- By induction on the codecs: each notation was there or is one of theirs. -/
theorem mem_foldl_noted {types : List TypeNotation} {codecs : List (Codec ω)} {t : TypeNotation}
    (h : t ∈ codecs.foldl noted types) : t ∈ types ∨ ∃ codec ∈ codecs, t = codec.type := by
  induction codecs generalizing types with
  | nil => exact .inl h
  | cons codec codecs ih =>
    obtain h | ⟨c, hc, rfl⟩ := ih h
    · exact (mem_noted h).imp_right fun h => ⟨codec, List.mem_cons_self, h⟩
    · exact .inr ⟨c, List.mem_cons_of_mem _ hc, rfl⟩

omit [LiveObject ω] in
/-- The type of each codec is there by its name. -/
theorem exists_mem_foldl_noted (types : List TypeNotation) {codecs : List (Codec ω)}
    {codec : Codec ω} (h : codec ∈ codecs) :
    ∃ t ∈ codecs.foldl noted types, t.name = codec.type.name := by
  induction codecs generalizing types with
  | nil => cases h
  | cons first codecs ih =>
    obtain rfl | h := List.mem_cons.1 h
    · obtain ⟨t, ht, hname⟩ := exists_mem_noted types codec
      exact ⟨t, (prefix_foldl_noted _ codecs).subset ht, hname⟩
    · exact ih (noted types first) h

/-! ### Codecs that are kept -/

omit [LiveObject ω] in
/-- The codec for a host type is the one that would be built anew. -/
theorem simulates_codecForHost (s : Setting ω) (known : CompositeType → Prop) (t : HostType) :
    Simulates (s.Keeps known) Eq (s.codecForHost t) (s.codecOf t) := by
  unfold codecForHost codecOf
  cases s.customs.codecOf? t with
  | some b => exact .pure rfl
  | none =>
    cases s.registry.nameOf? t with
    | none => exact .throw _
    | some name =>
      refine (s.simulates_liveCodec known name).bind ?_
      rintro live _ rfl
      exact .pure rfl

omit [LiveObject ω] in
/-- What building codecs gives, it gives while a payload is written. -/
theorem simulates_building {α : Type} {step : Building ω α} {y : Except Error α}
    (h : Simulates (s.Keeps known) Eq step y) :
    Simulates (fun c => s.Keeps known c.caches) Eq (WriteContext.building step) y := by
  have hbuilding : ∀ c : WriteContext ω,
      outcome (WriteContext.building step c) = outcome (step c.caches) ∧
        (final (WriteContext.building step c)).caches = final (step c.caches) := by
    intro c
    unfold WriteContext.building
    cases step c.caches <;> exact ⟨rfl, rfl⟩
  constructor
  · intro c hc
    rw [(hbuilding c).1]
    exact h.like hc
  · intro c hc
    rw [(hbuilding c).2]
    exact h.keeps hc

/-- The writer for a request is the one that would be chosen anew, and it notes its type. -/
theorem simulates_writerFor (s : Setting ω) (known : CompositeType → Prop) (q : WriteRequest ω) :
    Simulates (fun c => s.Keeps known c.caches) Eq (s.writerFor q) (s.writerOf q) := by
  refine (simulates_building (s.simulates_codecForHost known _)).bind ?_
  rintro codec _ rfl
  cases q.expected with
  | none => exact .pure rfl
  | some expected =>
    dsimp only
    split
    · exact .pure rfl
    · exact .throw _

omit [LiveObject ω] in
/-- Noting a type always succeeds. -/
theorem simulates_note (s : Setting ω) (known : CompositeType → Prop) (type : TypeNotation) :
    Simulates (fun c => s.Keeps known c.caches) Eq (WriteContext.note type) (.ok ()) := by
  refine ⟨fun _ => .ok rfl, fun {c} hc => ?_⟩
  rw [caches_note]
  exact hc

/-- Writing with codecs that are kept gives what it gives with all codecs built anew. -/
theorem simulates_writeWithin (s : Setting ω) (known : CompositeType → Prop) (room : Nat)
    (q : WriteRequest ω) :
    Simulates (fun c => s.Keeps known c.caches) Eq (s.writeWithin room q) (s.writes room q) := by
  induction room generalizing q with
  | zero =>
    refine (s.simulates_writerFor known q).bind ?_
    rintro codec _ rfl
    exact .throw _
  | succ room ih =>
    refine (s.simulates_writerFor known q).bind ?_
    rintro codec _ rfl
    refine (s.simulates_note known codec.type).bind (y := .ok ()) (g := fun _ => _) ?_
    rintro _ _ -
    exact Exchange.simulates_run ih _

/-- What is noted while an object is written are the types of the codecs that are visited. -/
theorem types_writeWithin (room : Nat) (q : WriteRequest ω) {c : WriteContext ω}
    (hc : s.Keeps known c.caches) :
    (final (s.writeWithin room q c)).types = (s.visits room q).foldl noted c.types := by
  induction room generalizing q c with
  | zero =>
    have htypes := s.types_writerFor q c
    rw [writeWithin]
    cases hwriter : s.writerFor q c with
    | error e c₁ =>
      rw [hwriter] at htypes
      rw [bind_error hwriter]
      exact htypes
    | ok codec c₁ =>
      rw [hwriter] at htypes
      rw [bind_ok hwriter]
      exact htypes
  | succ room ih =>
    -- Choosing the writer notes nothing by itself, and it chooses what would be chosen anew.
    have htypes := s.types_writerFor q c
    have hwriterOf := eq_of_like ((s.simulates_writerFor known q).like hc)
    have hkeeps := (s.simulates_writerFor known q).keeps hc
    cases hwriter : s.writerFor q c with
    | error e c₁ =>
      rw [hwriter] at htypes hwriterOf
      rw [writeWithin, bind_error hwriter, visits, ← hwriterOf]
      exact htypes
    | ok codec c₁ =>
      rw [hwriter] at htypes hwriterOf hkeeps
      rw [writeWithin_of_writer hwriter, visits, inside, ← hwriterOf]
      -- The type of the writer comes first, and then whatever the requests inside note, one by one.
      have hnoted : (final (WriteContext.note codec.type c₁)).types = noted c.types codec := by
        rw [← htypes, final_note, noted]
        exact apply_ite WriteContext.types _ _ _
      have hstart := (s.simulates_note known codec.type).keeps hkeeps
      have hrun := Exchange.final_run WriteContext.types
        (fun types q => (s.visits room q).foldl noted types) (s.simulates_writeWithin known room)
        (fun q _ hc => ih q hc) (codec.write codec.typeName q.object) hstart
      refine hrun.trans ?_
      show List.foldl _ (final (WriteContext.note codec.type c₁)).types _ =
        (((codec.write codec.typeName q.object).asks (s.writes room)).flatMap (s.visits room)).foldl
          noted (noted c.types codec)
      rw [hnoted, List.foldl_flatMap]

end Setting

namespace Factory

variable [LiveObject ω] {f : Factory ω} {α : Type}

/-- What encoding gives, with all codecs built anew. -/
def encodes (f : Factory ω) (object : ω) : Except Error (List UInt8) := do
  Envelope.toBytes (← f.toSetting.written object)

/-- What a factory gives for an exchange about objects comes with the notations made meanwhile. -/
theorem outcome_writing (x : Writing ω α) (f : Factory ω) : outcome (writing x f) =
    (outcome (f.toSetting.writing x ⟨f.caches, []⟩)).map fun a =>
      (a, ⟨(final (f.toSetting.writing x ⟨f.caches, []⟩)).types⟩) := by
  unfold writing
  cases f.toSetting.writing x ⟨f.caches, []⟩ <;> rfl

/-- An exchange about objects leaves of its context what was built, and no notation. -/
theorem final_writing (x : Writing ω α) (f : Factory ω) : final (writing x f) =
    { f with caches := (final (f.toSetting.writing x ⟨f.caches, []⟩)).caches } := by
  unfold writing
  cases f.toSetting.writing x ⟨f.caches, []⟩ <;> rfl

/-- The codecs that are kept do not change what is written. -/
theorem outcome_writeObject (hkeeps : f.toSetting.Keeps known f.caches) (object : ω) :
    outcome (writing (writeObject object) f) =
      (f.toSetting.written object).map fun e => (e.body, e.schema) := by
  have hstart : f.toSetting.Keeps known (WriteContext.mk f.caches []).caches := hkeeps
  have hlike := eq_of_like
    ((f.toSetting.simulates_writeWithin known f.config.maxDepth ⟨object, none⟩).like hstart)
  have htypes := Setting.types_writeWithin f.config.maxDepth ⟨object, none⟩ hstart
  rw [outcome_writing]
  simp only [Setting.writing, writeObject, Exchange.run_request, hlike, htypes, Setting.written]
  cases f.toSetting.writes f.config.maxDepth ⟨object, none⟩ <;> rfl

/-- With codecs of known shapes kept, what a factory writes is what is written anew. -/
theorem written_of_writing (hkeeps : f.toSetting.Keeps known f.caches) {object : ω} {f' : Factory ω}
    {body : Value ω} {schema : Schema}
    (h : writing (writeObject object) f = .ok (body, schema) f') :
    f.toSetting.written object = .ok ⟨body, schema⟩ := by
  have houtcome := outcome_writeObject hkeeps object
  rw [h] at houtcome
  cases hwritten : f.toSetting.written object with
  | error e =>
    rw [hwritten] at houtcome
    cases houtcome
  | ok e =>
    rw [hwritten] at houtcome
    cases houtcome
    rfl

/-- Writing keeps codecs of known shapes only. -/
theorem keeps_writeObject (hkeeps : f.toSetting.Keeps known f.caches) (object : ω) :
    f.toSetting.Keeps known (final (writing (writeObject object) f)).caches := by
  have hwrite := (f.toSetting.simulates_writeWithin known f.config.maxDepth ⟨object, none⟩).keeps
    (s := ⟨f.caches, []⟩) hkeeps
  rw [final_writing]
  simp only [Setting.writing, writeObject, Exchange.run_request]
  exact hwrite

/-- Encoding is writing, and then bytes: the factory is the one after writing, whether or not the
payload can be written. -/
theorem encode_cases (object : ω) (f : Factory ω) :
    outcome (encode object f) = (outcome (writing (writeObject object) f) >>= fun x =>
        Envelope.toBytes ⟨x.1, x.2⟩) ∧
      final (encode object f) = final (writing (writeObject object) f) := by
  unfold encode
  cases h : writing (writeObject object) f with
  | error err f' =>
    rw [bind_error h]
    exact ⟨rfl, rfl⟩
  | ok x f' =>
    rw [bind_ok h]
    exact ⟨outcome_inspecting _ f', final_inspecting _ f'⟩

/-- The codecs that are kept do not change what encoding gives. -/
theorem outcome_encode (hkeeps : f.toSetting.Keeps known f.caches) (object : ω) :
    outcome (encode object f) = f.encodes object := by
  rw [(encode_cases object f).1, outcome_writeObject hkeeps, encodes]
  cases f.toSetting.written object <;> rfl

end Factory

end SelfDescribing
