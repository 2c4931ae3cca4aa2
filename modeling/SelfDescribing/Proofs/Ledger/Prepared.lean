import SelfDescribing.Proofs.Factory.Continuing
import SelfDescribing.Proofs.Ledger.Parts

namespace SelfDescribing

open Steps

/-!
# Factories that know the ledger types

* `Factory.SparesLedger` — the factories in which the names and the host types of the ledger types
  are left to them.
* `Factory.Prepared` — those with which the ledger types were registered.
* `Setting.LedgerIntact`, `Setting.Knows` — what holds in all of them, by one lemma for each
  operation.
* `Factory.codec_of_shape`, `Factory.codec_of_handler` — the codecs that are found for the host
  types of the ledger.

The registrations may be made at any time, with others before, between and after them.  What must
not happen is that another shape or codec takes a name or a host type of the ledger.  So the
invariant has two parts: nothing foreign stands in these places, and what was registered there is
still there.
-/

/-- The shapes of the ledger types. -/
def ledgerShapes : List (TypeShape Entity) :=
  [StateRef.shape, Party.shape, TimeWindow.shape, TransactionState.shape, Command.shape]

/-- The hand-written codecs that are registered with the shapes. -/
def ledgerHandlers : List (CustomCodec Entity) :=
  [BytesType.secureHash.codec, BytesType.privacySalt.codec, WireTransaction.codec]

/-- The names of the ledger types. -/
def ledgerNames : List String :=
  ledgerShapes.map (·.name) ++ ledgerHandlers.map (·.typeName)

/-- The host types of the ledger types. -/
def ledgerHosts : List HostType :=
  ledgerShapes.filterMap (·.hostType?) ++ ledgerHandlers.map (·.hostType)

/-- No two of the ledger's types share a name. -/
theorem nodup_ledgerNames : ledgerNames.Nodup := by decide

/-- No two of them share a host type. -/
theorem nodup_ledgerHosts : ledgerHosts.Nodup := by decide

/-- The name determines the shape. -/
theorem eq_of_shape_name {s s' : TypeShape Entity} (hs : s ∈ ledgerShapes)
    (hs' : s' ∈ ledgerShapes) (hname : s.name = s'.name) : s = s' :=
  List.inj_on_of_nodup_map (List.nodup_append.1 nodup_ledgerNames).1 hs hs' hname

/-- The name determines the codec. -/
theorem eq_of_handler_name {k k' : CustomCodec Entity} (hk : k ∈ ledgerHandlers)
    (hk' : k' ∈ ledgerHandlers) (hname : k.typeName = k'.typeName) : k = k' :=
  List.inj_on_of_nodup_map (List.nodup_append.1 nodup_ledgerNames).2.1 hk hk' hname

/-- The host type determines the codec. -/
theorem eq_of_handler_host {k k' : CustomCodec Entity} (hk : k ∈ ledgerHandlers)
    (hk' : k' ∈ ledgerHandlers) (hhost : k.hostType = k'.hostType) : k = k' :=
  List.inj_on_of_nodup_map (List.nodup_append.1 nodup_ledgerHosts).2.1 hk hk' hhost

/-- No shape of the ledger has the name of a type with a hand-written codec. -/
theorem shape_name_ne {s : TypeShape Entity} {k : CustomCodec Entity} (hs : s ∈ ledgerShapes)
    (hk : k ∈ ledgerHandlers) : s.name ≠ k.typeName :=
  (List.nodup_append.1 nodup_ledgerNames).2.2 _ (List.mem_map_of_mem hs) _
    (List.mem_map_of_mem hk)

/-- No shape of the ledger has the host type of a type with a hand-written codec. -/
theorem shape_host_ne {s : TypeShape Entity} {k : CustomCodec Entity} (hs : s ∈ ledgerShapes)
    (hk : k ∈ ledgerHandlers) : s.hostType? ≠ some k.hostType := fun hhost =>
  (List.nodup_append.1 nodup_ledgerHosts).2.2 _ (List.mem_filterMap.2 ⟨s, hs, hhost⟩) _
    (List.mem_map_of_mem hk) rfl

/-! ### Operations that spare the ledger -/

/-- A shape of the ledger, or one of another name and another host type. -/
def TypeShape.SparesLedger (s : TypeShape Entity) : Prop :=
  s ∈ ledgerShapes ∨
    (s.name ∉ ledgerNames ∧ ∀ t, s.hostType? = some t → t ∉ ledgerHosts)

/-- An operation that registers nothing but the ledger types and shapes of other types and
names. -/
def Operation.SparesLedger : Operation Entity → Prop
  | .register shape => shape.SparesLedger
  | .registerCustom codec => codec ∈ ledgerHandlers
  | _ => True

namespace TypeShape.SparesLedger

variable {s s' : TypeShape Entity} {k : CustomCodec Entity}

/-- The only shape with the name of one of the ledger is this one. -/
theorem eq_of_name (h : s'.SparesLedger) (hs : s ∈ ledgerShapes) (hname : s'.name = s.name) :
    s' = s := by
  obtain hs' | ⟨hother, -⟩ := h
  · exact eq_of_shape_name hs' hs hname
  · rw [hname] at hother
    exact absurd (List.mem_append_left _ (List.mem_map_of_mem hs)) hother

/-- No shape has the name of a hand-written codec. -/
theorem name_ne (h : s.SparesLedger) (hk : k ∈ ledgerHandlers) : s.name ≠ k.typeName := by
  obtain hs | ⟨hother, -⟩ := h
  · exact shape_name_ne hs hk
  · intro hname
    rw [hname] at hother
    exact hother (List.mem_append_right _ (List.mem_map_of_mem hk))

end TypeShape.SparesLedger

/-! ### Nothing else under the names of the ledger -/

namespace Setting

variable {s : Setting Entity}

/-- The shapes spare the ledger, and the custom codecs are those of the ledger. -/
structure LedgerIntact (s : Setting Entity) : Prop where
  shapes : ∀ {name shape}, s.registry.shape? name = some shape → shape.SparesLedger
  codecs : ∀ {name b}, s.customs.codec? name = some b →
    b.codec ∈ ledgerHandlers ∧ ∃ r, BoundCodec.bind b.codec r = .ok b
  hosts : ∀ {t name}, s.customs.hostNames.find? t = some name →
    ∃ k ∈ ledgerHandlers, k.hostType = t ∧ k.typeName = name

/-- A shape that spares the ledger's names and host types leaves those of the ledger alone. -/
theorem LedgerIntact.register (h : s.LedgerIntact) {shape : TypeShape Entity}
    (hshape : shape.SparesLedger) {r : Registry Entity}
    (hr : s.registry.register shape = .ok () r) :
    Setting.LedgerIntact { s with registry := r } := by
  refine ⟨fun {name found} hfound => ?_, h.codecs, h.hosts⟩
  have hfound : r.shape? name = some found := hfound
  rw [Registry.shape?_register hr] at hfound
  split at hfound
  · cases hfound
    exact hshape
  · exact h.shapes hfound

/-- Opting in changes no shape. -/
theorem LedgerIntact.allow (h : s.LedgerIntact) (allowed : String) :
    Setting.LedgerIntact { s with registry := s.registry.allow allowed } := by
  refine ⟨fun {name shape} hshape => ?_, h.codecs, h.hosts⟩
  have hshape : (s.registry.allow allowed).shape? name = some shape := hshape
  rw [Registry.shape?_allow] at hshape
  exact h.shapes hshape

/-- A codec of the ledger is put where codecs of the ledger may stand. -/
theorem LedgerIntact.registerCustom (h : s.LedgerIntact) {k : CustomCodec Entity}
    (hk : k ∈ ledgerHandlers) {b : BoundCodec Entity}
    (hb : BoundCodec.bind k s.registry = .ok b) :
    Setting.LedgerIntact { s with customs := s.customs.register b } := by
  obtain ⟨rfl, -⟩ := BoundCodec.bind_eq_ok hb
  refine ⟨h.shapes, fun {name found} hfound => ?_, fun {t name} ht => ?_⟩
  · have hfound : (s.customs.register b).codec? name = some found := hfound
    rw [CustomCodecs.codec?_register] at hfound
    split at hfound
    · cases hfound
      exact ⟨hk, _, hb⟩
    · split at hfound
      · cases hfound
      · exact h.codecs hfound
  · have ht : (s.customs.hostNames.insert b.codec.hostType b.typeName).find? t = some name := ht
    rw [Table.find?_insert] at ht
    split at ht
    · cases ht
      exact ⟨b.codec, hk, by assumption, rfl⟩
    · exact h.hosts ht

/-- A hand-written codec of the ledger takes the place of none of another name. -/
theorem LedgerIntact.replacedName? (h : s.LedgerIntact) {b : BoundCodec Entity}
    (hb : b.codec ∈ ledgerHandlers) : s.customs.replacedName? b = none := by
  unfold CustomCodecs.replacedName?
  cases hfound : s.customs.hostNames.find? b.codec.hostType with
  | none => rfl
  | some name =>
    obtain ⟨k, hk, hhost, rfl⟩ := h.hosts hfound
    rw [eq_of_handler_host hk hb hhost, Option.filter_some, if_neg]
    simp [BoundCodec.typeName]

/-! ### What was registered stays -/

/-- Some of the shapes and hand-written codecs of the ledger are registered. -/
structure Knows (s : Setting Entity) (shapes : List (TypeShape Entity))
    (handlers : List (CustomCodec Entity)) : Prop where
  shapes : ∀ shape ∈ shapes, shape ∈ ledgerShapes ∧
    s.registry.shape? shape.name = some shape ∧
    ∀ t, shape.hostType? = some t → s.registry.nameOf? t = some shape.name
  handlers : ∀ k ∈ handlers, k ∈ ledgerHandlers ∧
    ∃ b, s.customs.codec? k.typeName = some b ∧ b.codec = k

variable {shapes : List (TypeShape Entity)} {handlers : List (CustomCodec Entity)}

/-- Shapes already known stay so, as the new one has another name or is the same. -/
theorem Knows.register (h : s.Knows shapes handlers) {shape : TypeShape Entity}
    (hshape : shape.SparesLedger) {r : Registry Entity}
    (hr : s.registry.register shape = .ok () r) :
    Setting.Knows { s with registry := r } shapes handlers := by
  refine ⟨fun known hknown => ?_, h.handlers⟩
  obtain ⟨hmem, hfound, hhost⟩ := h.shapes known hknown
  refine ⟨hmem, ?_, fun t ht => Registry.nameOf?_register hr (hhost t ht)⟩
  show r.shape? known.name = some known
  rw [Registry.shape?_register hr]
  split
  · -- A shape that is registered under its name is the same one.
    rename_i hname
    rw [hshape.eq_of_name hmem hname]
  · exact hfound

/-- Opting in forgets nothing. -/
theorem Knows.allow (h : s.Knows shapes handlers) (allowed : String) :
    Setting.Knows { s with registry := s.registry.allow allowed } shapes handlers := by
  refine ⟨fun shape hshape => ?_, h.handlers⟩
  obtain ⟨hmem, hfound, hhost⟩ := h.shapes shape hshape
  refine ⟨hmem, ?_, fun t ht => ?_⟩
  · show (s.registry.allow allowed).shape? shape.name = some shape
    rw [Registry.shape?_allow, hfound]
  · show (s.registry.allow allowed).nameOf? t = some shape.name
    rw [Registry.nameOf?_allow, hhost t ht]

/-- Codecs already known stay so, as the new one has another name or is the same. -/
theorem Knows.registerCustom (h : s.Knows shapes handlers) (hs : s.LedgerIntact)
    {b : BoundCodec Entity} (hb : b.codec ∈ ledgerHandlers) :
    Setting.Knows { s with customs := s.customs.register b } shapes handlers := by
  refine ⟨h.shapes, fun k hk => ?_⟩
  obtain ⟨hmem, known, hknown, rfl⟩ := h.handlers k hk
  refine ⟨hmem, ?_⟩
  show ∃ found, (s.customs.register b).codec? known.codec.typeName = some found ∧
    found.codec = known.codec
  rw [CustomCodecs.codec?_register, hs.replacedName? hb]
  by_cases hname : b.typeName = known.codec.typeName
  · exact ⟨b, if_pos hname, eq_of_handler_name hb hmem hname⟩
  · refine ⟨known, ?_, rfl⟩
    rw [if_neg hname, if_neg nofun, hknown]

/-- No hand-written codec has the name of a shape. -/
theorem LedgerIntact.namesApart (h : s.LedgerIntact) (hregistry : s.registry.Coherent)
    (hcustoms : s.customs.Coherent) : s.NamesApart := by
  intro name b shape t hb hshape _
  have hname : shape.name = b.codec.typeName :=
    (hregistry.name_eq hshape).trans (hcustoms.typeName_eq hb).symm
  exact absurd hname ((h.shapes hshape).name_ne (h.codecs hb).1)

end Setting

/-! ### Factories -/

namespace Factory

/-- The factories that come up by operations that spare the ledger, from registries that do. -/
inductive SparesLedger : Factory Entity → Prop
  | new {r order} : r.Reachable →
      (∀ name shape, r.shape? name = some shape → shape.SparesLedger) →
      SparesLedger (.new r order)
  | withConfig {r order c f} : r.Reachable →
      (∀ name shape, r.shape? name = some shape → shape.SparesLedger) →
      Factory.withConfig r order c = .ok f → SparesLedger f
  | perform {f} (op : Operation Entity) : SparesLedger f → op.SparesLedger →
      SparesLedger (f.perform op)

/-- The factories with which the ledger types were registered, and besides them only shapes of
other types and names, before or after. -/
inductive Prepared : Factory Entity → Prop
  | ledger {f f'} : SparesLedger f → registerLedger f = .ok () f' → Prepared f'
  | perform {f} (op : Operation Entity) : Prepared f → op.SparesLedger → Prepared (f.perform op)

variable {f f' : Factory Entity} {op : Operation Entity}

/-- What is done to spare the ledger can be done. -/
theorem SparesLedger.reachable (h : f.SparesLedger) : f.Reachable := by
  induction h with
  | new hr _ => exact .new hr
  | withConfig hr _ hc => exact .withConfig hr hc
  | perform op _ _ ih => exact ih.perform op

/-- The shapes spare the ledger, the custom codecs are those of the ledger, and the codecs that were
built were built from such shapes. -/
structure LedgerIntact (f : Factory Entity) : Prop where
  setting : f.toSetting.LedgerIntact
  caches : ∀ {name x}, f.caches.live.find? name = some x →
    ∃ shape r, shape.SparesLedger ∧ shape.name = name ∧ ObjectCodec.build shape r = .ok x

/-- A new factory is intact if its registry has no shape that could stand in the ledger's way. -/
theorem ledgerIntact_new {r : Registry Entity} {order : ScanOrder} {config : Config}
    (h : ∀ name shape, r.shape? name = some shape → shape.SparesLedger) :
    LedgerIntact ⟨⟨r, .empty order, config⟩, .empty⟩ :=
  ⟨⟨h _ _, nofun, nofun⟩, nofun⟩

/-- One case for each operation: none that spares the ledger gets in its way. -/
theorem LedgerIntact.perform (h : f.LedgerIntact) (hf : f.Coherent) (hop : op.SparesLedger) :
    (f.perform op).LedgerIntact := by
  obtain ⟨hsetting, hextends⟩ | ⟨shape, r, rfl, hr, he⟩ | ⟨allowed, -, he⟩ |
    ⟨k, b, rfl, hb, he⟩ := f.perform_cases op
  · refine ⟨hsetting ▸ h.setting, fun hx => ?_⟩
    -- What was built was built from the registered shapes.
    obtain hold | ⟨shape, hshape, hbuild⟩ := hextends.live_new hx
    · exact h.caches hold
    · exact ⟨shape, _, h.setting.shapes hshape, hf.registry.name_eq hshape, hbuild⟩
  · rw [he]
    exact ⟨h.setting.register hop hr, h.caches⟩
  · rw [he]
    exact ⟨h.setting.allow allowed, h.caches⟩
  · rw [he]
    refine ⟨h.setting.registerCustom hop hb, fun {name x} hx => ?_⟩
    have hx : (f.caches.live.filterKeys _).find? name = some x := hx
    rw [Table.find?_filterKeys] at hx
    split at hx
    · exact h.caches hx
    · cases hx

/-- By induction on the operations: a factory used so is intact. -/
theorem SparesLedger.intact (h : f.SparesLedger) : f.LedgerIntact := by
  induction h with
  | new _ hshapes => exact ledgerIntact_new hshapes
  | @withConfig r order c f hr hshapes hc =>
    obtain ⟨-, -, h⟩ := except_bind_eq_ok.1 hc
    cases h
    refine ledgerIntact_new fun name shape hshape => hshapes name shape ?_
    rw [← hshape, Registry.shape?_allowAll]
  | perform op hf hop ih => exact ih.perform hf.reachable.coherent hop

/-! ### What was registered stays -/

variable {shapes : List (TypeShape Entity)} {handlers : List (CustomCodec Entity)}

/-- One case for each operation: what the factory knows of the ledger it does not forget. -/
theorem knows_perform (h : f.Knows shapes handlers) (hf : f.LedgerIntact)
    (hop : op.SparesLedger) : (f.perform op).Knows shapes handlers := by
  obtain ⟨hsetting, -⟩ | ⟨shape, r, rfl, hr, he⟩ | ⟨allowed, -, he⟩ | ⟨k, b, rfl, hb, he⟩ :=
    f.perform_cases op
  · exact hsetting ▸ h
  · rw [he]
    exact h.register hop hr
  · rw [he]
    exact h.allow allowed
  · obtain ⟨rfl, -⟩ := BoundCodec.bind_eq_ok hb
    rw [he]
    exact h.registerCustom hf.setting hop

/-- Registering a shape of the ledger is an operation that spares it, and adds the shape to what is
known. -/
theorem knows_register (h : f.Knows shapes handlers) (hf : f.SparesLedger)
    {shape : TypeShape Entity} (hshape : shape ∈ ledgerShapes)
    (hregister : Factory.register shape f = .ok () f') :
    f'.SparesLedger ∧ f'.Knows (shapes ++ [shape]) handlers := by
  have hperform : f.perform (.register shape) = f' := congrArg final hregister
  have hop : (Operation.register shape).SparesLedger := .inl hshape
  have hkept := knows_perform h hf.intact hop
  rw [hperform] at hkept
  refine ⟨hperform ▸ hf.perform _ hop, fun s hs => ?_, hkept.handlers⟩
  obtain hs | hs := List.mem_append.1 hs
  · exact hkept.shapes s hs
  · obtain rfl := List.mem_singleton.1 hs
    unfold Factory.register registering at hregister
    split at hregister
    · rename_i r hr
      cases hregister
      obtain ⟨-, -, rfl⟩ := Registry.register_eq_ok_iff.1 hr
      refine ⟨hshape, (Registry.shape?_store _ _ _).trans (if_pos rfl), fun t ht => ?_⟩
      exact (Registry.nameOf?_store _ _ _).trans (if_pos ht)
    · cases hregister

/-- Registering a codec of the ledger is an operation that spares it, and adds the codec to what is
known. -/
theorem knows_registerCustom (h : f.Knows shapes handlers) (hf : f.SparesLedger)
    {k : CustomCodec Entity} (hk : k ∈ ledgerHandlers)
    (hregister : Factory.registerCustom k f = .ok () f') :
    f'.SparesLedger ∧ f'.Knows shapes (handlers ++ [k]) := by
  have hperform : f.perform (.registerCustom k) = f' := congrArg final hregister
  have hop : (Operation.registerCustom k).SparesLedger := hk
  have hkept := knows_perform h hf.intact hop
  rw [hperform] at hkept
  refine ⟨hperform ▸ hf.perform _ hop, hkept.shapes, fun k' hk' => ?_⟩
  obtain hk' | hk' := List.mem_append.1 hk'
  · exact hkept.handlers k' hk'
  · obtain rfl := List.mem_singleton.1 hk'
    unfold Factory.registerCustom at hregister
    split at hregister
    · cases hregister
    · rename_i b hb
      cases hregister
      obtain ⟨rfl, -⟩ := BoundCodec.bind_eq_ok hb
      exact ⟨hk, b, (CustomCodecs.codec?_register _ _ _).trans (if_pos rfl), rfl⟩

/-- All ledger types are known once they were registered. -/
theorem knows_of_registerLedger (hf : f.SparesLedger) (h : registerLedger f = .ok () f') :
    f'.SparesLedger ∧ f'.Knows ledgerShapes ledgerHandlers := by
  obtain ⟨⟨⟩, f₁, hstateRef, h⟩ := bind_eq_ok.1 h
  obtain ⟨⟨⟩, f₂, hparty, h⟩ := bind_eq_ok.1 h
  obtain ⟨⟨⟩, f₃, hwindow, h⟩ := bind_eq_ok.1 h
  obtain ⟨⟨⟩, f₄, hstate, h⟩ := bind_eq_ok.1 h
  obtain ⟨⟨⟩, f₅, hcommand, h⟩ := bind_eq_ok.1 h
  obtain ⟨⟨⟩, f₆, hhash, h⟩ := bind_eq_ok.1 h
  obtain ⟨⟨⟩, f₇, hsalt, htransaction⟩ := bind_eq_ok.1 h
  have hnone : f.Knows [] [] := ⟨nofun, nofun⟩
  obtain ⟨hf₁, h₁⟩ := knows_register hnone hf (by simp [ledgerShapes]) hstateRef
  obtain ⟨hf₂, h₂⟩ := knows_register h₁ hf₁ (by simp [ledgerShapes]) hparty
  obtain ⟨hf₃, h₃⟩ := knows_register h₂ hf₂ (by simp [ledgerShapes]) hwindow
  obtain ⟨hf₄, h₄⟩ := knows_register h₃ hf₃ (by simp [ledgerShapes]) hstate
  obtain ⟨hf₅, h₅⟩ := knows_register h₄ hf₄ (by simp [ledgerShapes]) hcommand
  obtain ⟨hf₆, h₆⟩ := knows_registerCustom h₅ hf₅ (by simp [ledgerHandlers]) hhash
  obtain ⟨hf₇, h₇⟩ := knows_registerCustom h₆ hf₆ (by simp [ledgerHandlers]) hsalt
  exact knows_registerCustom h₇ hf₇ (by simp [ledgerHandlers]) htransaction

/-- After all the registrations, in whatever else was done before and between, the factory knows the
shapes and codecs of the ledger. -/
theorem Prepared.knows (h : f.Prepared) :
    f.SparesLedger ∧ f.Knows ledgerShapes ledgerHandlers := by
  induction h with
  | ledger hf hregister => exact knows_of_registerLedger hf hregister
  | perform op _ hop ih => exact ⟨ih.1.perform op hop, knows_perform ih.2 ih.1.intact hop⟩

/-! ### The codecs of the ledger types -/

/-- The codec for the host type of a shape was built from this shape. -/
theorem codec_of_shape (h : f.Knows ledgerShapes ledgerHandlers) (hf : f.LedgerIntact)
    {s : TypeShape Entity} (hs : s ∈ ledgerShapes) {t : HostType}
    (ht : s.hostType? = some t) {codec : Codec Entity}
    (hname : f.nameOfHost t = .ok codec.typeName) (hholds : f.toSetting.Holds f.caches codec) :
    ∃ c r, codec = .object c ∧ ObjectCodec.build s r = .ok c := by
  obtain ⟨-, hshape, hhost⟩ := h.shapes s hs
  -- A custom codec for the host type would be one of the ledger, and none of these has the host
  -- type of a shape.
  have hcustom : f.customs.codecOf? t = none := by
    unfold CustomCodecs.codecOf?
    cases hfound : f.customs.hostNames.find? t with
    | none => rfl
    | some name =>
      obtain ⟨k, hk, rfl, -⟩ := hf.setting.hosts hfound
      exact absurd ht (shape_host_ne hs hk)
  rw [Setting.nameOfHost, hcustom, hhost t ht] at hname
  have hname : s.name = codec.typeName := Except.ok.inj hname
  -- The codec that is held has the name of the shape.  That leaves the default one, which was built
  -- from it.
  cases codec with
  | evolution x => exact absurd hholds id
  | custom b => exact absurd hname (shape_name_ne hs (hf.setting.codecs hholds.1).1)
  | object c =>
    obtain ⟨s', r, hs', hsame, hbuild⟩ := hf.caches hholds.2.2
    rw [hs'.eq_of_name hs (hsame.trans hname.symm)] at hbuild
    exact ⟨c, r, rfl, hbuild⟩

/-- The codec for the host type of a hand-written codec is this one. -/
theorem codec_of_handler (h : f.Knows ledgerShapes ledgerHandlers) (hf : f.Coherent)
    {k : CustomCodec Entity} (hk : k ∈ ledgerHandlers) {codec : Codec Entity}
    (hname : f.nameOfHost k.hostType = .ok codec.typeName)
    (hholds : f.toSetting.Holds f.caches codec) : ∃ type, codec = .custom ⟨k, type⟩ := by
  obtain ⟨-, b, hb, rfl⟩ := h.handlers k hk
  have hcustom : f.customs.codecOf? b.codec.hostType = some b := by
    rw [CustomCodecs.codecOf?, hf.customs.name_of_host hb]
    exact hb
  rw [Setting.nameOfHost, hcustom] at hname
  have hname : b.typeName = codec.typeName := Except.ok.inj hname
  have hheld : f.toSetting.Holds f.caches (.custom b) := ⟨hb, hf.customs.type_name_eq hb⟩
  rw [← hheld.unique hholds hname]
  exact ⟨b.type, rfl⟩

end Factory

end SelfDescribing
