import SelfDescribing.Ledger.Codecs
import SelfDescribing.Proofs.Codec.Build
import SelfDescribing.Proofs.Codec.Restoring
import Mathlib.Data.List.Nodup

namespace SelfDescribing

open Exchange Steps

/-!
# Transactions and their parts are read back

* `BytesType.undoes` — types that are nothing but bytes.
* `undoes_plainShape` and `StateRef.undoes` … `Command.undoes` — the parts with shapes.
* `WireTransaction.LaidOut` — the body of a transaction, with its parts in their places.
* `WireTransaction.laidOut_of_write`, `WireTransaction.gives_read` — such a body is written, and
  every such body is read as the transaction.

Each part has a shape with a few properties or is nothing but bytes, and so there is one lemma for
the first kind and one for the second, which the members instantiate.  A transaction has a codec of
its own that asks for its parts, so that they come back by what was proved of them.
-/

variable {ω α : Type}

/-- Data is seen again in the object that was made of it. -/
def HostView.Faithful (h : HostView ω α) : Prop := ∀ a, h.view? (h.wrap a) = some a

/-- What was wrapped as a host type is found to be of that type. -/
theorem HostView.Faithful.downcast [LiveObject ω] {h : HostView ω α} (hview : h.Faithful) (a : α) :
    Value.downcast h (h.wrap a) = .ok a := by
  simp only [Value.downcast, hview a]

/-! ### Types that are nothing but bytes -/

/-- A type written as bytes comes back from them if its bytes do. -/
theorem BytesType.undoes {t : BytesType α} (hview : t.view.Faithful)
    (hbytes : ∀ a, t.ofBytes (t.bytes a) = a) (type : TypeNotation) (a : α) :
    BoundCodec.Undoes ⟨t.codec, type⟩ (t.view.wrap a) := by
  intro schema written answers body _ hw
  have hwrite : t.codec.write (BoundCodec.typeName ⟨t.codec, type⟩) (t.view.wrap a) =
      pure (.binary (t.bytes a)) := by
    simp only [codec, hview.downcast]
    rfl
  rw [hwrite, Ends.pure_iff] at hw
  cases hw
  have hread : t.codec.read schema (.binary (t.bytes a)) =
      pure (t.view.wrap (t.ofBytes (t.bytes a))) := rfl
  show Gives answers (t.codec.read schema (.binary (t.bytes a))) (t.view.wrap a)
  rw [hread, hbytes]
  exact .pure _

/-! ### Parts with shapes -/

section Shapes

variable {typeName : String} {h : HostView Entity α} {properties : List (Property Entity)}
  {body : EStateM Error (Args Entity) α} {r : Registry Entity} {c : ObjectCodec Entity}

/-- Parameters with the names of the properties, in their order, are fed by these in this order. -/
theorem TypeShape.eq_properties {s : TypeShape ω} {r : Registry ω} {params : List Param}
    {properties : List (Property ω)} (hnames : s.checkNames = .ok ())
    (hparams : params.map (·.name) = s.properties.map (·.name))
    (hfor : List.Forall₂ (fun p property => s.propertyFor r p = .ok property) params properties) :
    properties = s.properties := by
  have hsame : properties.map (·.name) = s.properties.map (·.name) :=
    (names_of_propertyFor hfor).trans hparams
  have hlength : properties.length = s.properties.length := by
    simpa using congrArg List.length hsame
  refine List.ext_getElem hlength fun i hi hi' => ?_
  -- Both have the name at this position, which only one property of the shape has.
  have hmem : properties[i] ∈ s.properties := by
    obtain ⟨p, -, hp⟩ := exists_of_forall₂ hfor.flip (List.getElem_mem hi)
    exact (propertyFor_eq_ok hp).1
  refine List.inj_on_of_nodup_map (nodup_of_checkNames hnames).1 hmem (List.getElem_mem hi') ?_
  have hat : (properties.map (·.name))[i]? = (s.properties.map (·.name))[i]? := by rw [hsame]
  simpa [hi, hi'] using hat

/-- The codec of a plain shape has its properties in their order, and its only constructor. -/
theorem of_build_plainShape
    (hbuild : ObjectCodec.build (plainShape typeName h properties body) r = .ok c) :
    c.properties = properties.map .ofProperty ∧ ∃ k, c.constructor = some k ∧
      ∀ values, k.build values = (Args.call body values).map h.wrap := by
  obtain ⟨resolved, hresolve, rfl⟩ := ObjectCodec.build_eq_ok hbuild
  obtain ⟨hnames, ⟨hnone, -⟩ | ⟨k, hk, hconstructor, hfor⟩⟩ := TypeShape.resolve_eq_ok hresolve
  · -- A concrete type has a constructor.
    have hsome := TypeShape.constructor_of_resolve hresolve
    rw [hnone] at hsome
    exact absurd hsome (TypeShape.constructor_ne_none rfl)
  · obtain rfl := List.mem_singleton.1 hk
    have hsame := TypeShape.eq_properties hnames List.map_map hfor
    exact ⟨congrArg (List.map PropertyCodec.ofProperty) hsame, _, hconstructor, fun _ => rfl⟩

/-- An object of a plain shape is read back if its constructor takes what the getters give. -/
theorem undoes_plainShape
    (hbuild : ObjectCodec.build (plainShape typeName h properties body) r = .ok c) {a : α}
    (values : List (Value Entity))
    (hvalues : List.Forall₂ (fun p v => (PropertyCodec.ofProperty p).Holds (h.wrap a) v ∧
      (PropertyCodec.ofProperty p).Fits v) properties values)
    (hbody : Args.call body values = .ok a) : (Codec.object c).Undoes (h.wrap a) := by
  obtain ⟨hproperties, k, hk, hbuilds⟩ := of_build_plainShape hbuild
  -- The values are determined by the object, so that those that are read are those that were
  -- written.
  have hholds : List.Forall₂ (fun p v => p.Holds (h.wrap a) v ∧ p.Fits v) c.properties values := by
    rw [hproperties]
    exact List.forall₂_map_left_iff.2 hvalues
  have hunique : Relator.RightUnique fun (p : PropertyCodec Entity) v => p.Holds (h.wrap a) v :=
    fun _ _ _ hv hw => hw.unique hv
  constructor
  · intro values' hvalues'
    have hsame : values' = values :=
      List.right_unique_forall₂' hunique hvalues' (hholds.imp fun _ _ hv => hv.1)
    refine ⟨k, hk, ?_⟩
    rw [hbuilds, hsame, hbody]
    rfl
  · intro p hp v hv
    obtain ⟨w, -, hw, hfits⟩ := exists_of_forall₂ hholds hp
    rw [hunique hv hw]
    exact hfits

/-- A reference to a state comes back from its fields, which hold all of it. -/
theorem StateRef.undoes (hbuild : ObjectCodec.build StateRef.shape r = .ok c) (s : StateRef) :
    (Codec.object c).Undoes (Entity.stateRefs.wrap s) := by
  refine undoes_plainShape hbuild [.ofObject Entity.secureHashes s.txhash, .int s.index] ?_ rfl
  exact .cons ⟨⟨_, rfl, rfl⟩, rfl, nofun⟩ (.cons ⟨⟨_, rfl, rfl⟩, rfl, nofun⟩ .nil)

/-- A party comes back from its fields. -/
theorem Party.undoes (hbuild : ObjectCodec.build Party.shape r = .ok c) (p : Party) :
    (Codec.object c).Undoes (Entity.parties.wrap p) := by
  refine undoes_plainShape hbuild [.string p.name, .binary p.owningKey] ?_ rfl
  exact .cons ⟨⟨_, rfl, rfl⟩, rfl, nofun⟩ (.cons ⟨⟨_, rfl, rfl⟩, rfl, nofun⟩ .nil)

/-- The bounds of a time interval may be null, which is what an open one is. -/
theorem TimeWindow.undoes (hbuild : ObjectCodec.build TimeWindow.shape r = .ok c)
    (w : TimeWindow) : (Codec.object c).Undoes (Entity.timeWindows.wrap w) := by
  have hplain : ∀ bound : Option Int64,
      (Value.ofOption (bound.map .timestamp) : Value Entity).isPlain = true := by
    rintro (_ | ms) <;> rfl
  obtain ⟨fromTime, untilTime⟩ := w
  refine undoes_plainShape hbuild
    [.ofOption (fromTime.map .timestamp), .ofOption (untilTime.map .timestamp)] ?_ ?_
  · exact .cons ⟨⟨_, rfl, rfl⟩, hplain _, fun _ => rfl⟩
      (.cons ⟨⟨_, rfl, rfl⟩, hplain _, fun _ => rfl⟩ .nil)
  · cases fromTime <;> cases untilTime <;> rfl

/-- An output comes back if its data may stand in a property that is not null. -/
theorem TransactionState.undoes (hbuild : ObjectCodec.build TransactionState.shape r = .ok c)
    {s : TransactionState (Value Entity)} (hplain : s.data.isPlain = true)
    (hnull : s.data ≠ .null) : (Codec.object c).Undoes (Entity.transactionStates.wrap s) := by
  refine undoes_plainShape hbuild [s.data, .ofObject Entity.parties s.notary] ?_ rfl
  exact .cons ⟨⟨_, rfl, rfl⟩, hplain, fun h => absurd h hnull⟩
    (.cons ⟨⟨_, rfl, rfl⟩, rfl, nofun⟩ .nil)

/-- The signers are read from what they are written as. -/
theorem toSigners_binary (keys : List (List UInt8)) :
    Value.toSigners (.list (keys.map .binary)) = .ok keys := by
  show (keys.map Value.binary : List (Value Entity)).mapM Value.toBinary = .ok keys
  rw [except_mapM_eq_ok_iff, List.forall₂_map_left_iff]
  exact List.forall₂_same.2 fun _ _ => rfl

/-- Binaries need no codec. -/
theorem itemsPlain_binary (keys : List (List UInt8)) :
    itemsPlain (keys.map .binary : List (Value Entity)) = true := by
  induction keys with
  | nil => rfl
  | cons key keys ih =>
    rw [List.map_cons, itemsPlain, ih]
    rfl

/-- A command comes back if its value may stand in a property that is not null. -/
theorem Command.undoes (hbuild : ObjectCodec.build Command.shape r = .ok c)
    {k : Command (Value Entity)} (hplain : k.value.isPlain = true) (hnull : k.value ≠ .null) :
    (Codec.object c).Undoes (Entity.commands.wrap k) := by
  refine undoes_plainShape hbuild [k.value, .list (k.signers.map .binary)] ?_ ?_
  · exact .cons ⟨⟨_, rfl, rfl⟩, hplain, fun h => absurd h hnull⟩
      (.cons ⟨⟨_, rfl, rfl⟩, itemsPlain_binary _, nofun⟩ .nil)
  · -- The constructor takes the signers first.
    have htake : Args.takeWith Value.toSigners 1 ⟨[k.value, .list (k.signers.map .binary)]⟩ =
        .ok k.signers ⟨[k.value, .null]⟩ := by
      rw [Args.takeWith, bind_ok (show Args.take 1 _ = .ok _ _ from rfl), toSigners_binary]
      rfl
    unfold Args.call
    simp only [EStateM.run, bind_ok htake]
    rfl

end Shapes

/-! ### Transactions -/

/-- A part that may be missing is told by null if it is, and by something else if it is not. -/
def OptionalPart (P : Entity → Value Entity → Prop) (h : HostView Entity α) :
    Option α → Value Entity → Prop
  | none, v => v = .null
  | some a, v => v ≠ .null ∧ P (h.wrap a) v

namespace WireTransaction

/-- The body of a transaction: a list of seven items, in which each part stands in its place as a
value that tells it. -/
inductive LaidOut (P : Entity → Value Entity → Prop) (tx : WireTransaction (Value Entity)) :
    Value Entity → Prop
  | intro {inputs attachments outputs commands : List (Value Entity)}
      {notary timeWindow privacySalt : Value Entity} :
      List.Forall₂ (fun a => P (Entity.stateRefs.wrap a)) tx.inputs inputs →
      List.Forall₂ (fun a => P (Entity.secureHashes.wrap a)) tx.attachments attachments →
      List.Forall₂ (fun a => P (Entity.transactionStates.wrap a)) tx.outputs outputs →
      List.Forall₂ (fun a => P (Entity.commands.wrap a)) tx.commands commands →
      OptionalPart P Entity.parties tx.notary notary →
      OptionalPart P Entity.timeWindows tx.timeWindow timeWindow →
      P (Entity.privacySalts.wrap tx.privacySalt) privacySalt →
      LaidOut P tx (.list [.list inputs, .list attachments, .list outputs, .list commands, notary,
        timeWindow, privacySalt])

variable {P Q : Entity → Value Entity → Prop} {tx : WireTransaction (Value Entity)}
  {body : Value Entity}

/-- A layout says no more than its parts do. -/
theorem LaidOut.imp (h : LaidOut P tx body) (hPQ : ∀ object v, P object v → Q object v) :
    LaidOut Q tx body := by
  have hoptional : ∀ {α : Type} {h : HostView Entity α} {a : Option α} {v : Value Entity},
      OptionalPart P h a v → OptionalPart Q h a v := by
    rintro α h (_ | a) v hv
    · exact hv
    · exact ⟨hv.1, hPQ _ _ hv.2⟩
  obtain ⟨hinputs, hattachments, houtputs, hcommands, hnotary, hwindow, hsalt⟩ := h
  exact ⟨hinputs.imp fun _ _ => hPQ _ _, hattachments.imp fun _ _ => hPQ _ _,
    houtputs.imp fun _ _ => hPQ _ _, hcommands.imp fun _ _ => hPQ _ _, hoptional hnotary,
    hoptional hwindow, hPQ _ _ hsalt⟩

section Writing

variable {written : WriteRequest Entity → Except Error (Value Entity) → Prop}

/-- What an object is written as, whatever type it should be of. -/
def WrittenAs (written : WriteRequest Entity → Except Error (Value Entity) → Prop)
    (object : Entity) (v : Value Entity) : Prop :=
  written ⟨object, none⟩ (.ok v)

/-- A part that may be absent is written as null or as the part.  No part is written as null itself,
so that reading can tell. -/
theorem part_of_writeOptional {h : HostView Entity α} {a : Option α} {v : Value Entity}
    (hnull : ∀ object, ¬ WrittenAs written object .null)
    (hw : (writeOptional h a).Ends written (.ok v)) :
    OptionalPart (WrittenAs written) h a v := by
  cases a with
  | none =>
    cases Ends.pure_iff.1 hw
    rfl
  | some a =>
    have hv : WrittenAs written (h.wrap a) v := Ends.request_iff.1 hw
    refine ⟨?_, hv⟩
    rintro rfl
    exact hnull _ hv

/-- By induction on the parts: a list of parts is written one by one and in order. -/
theorem parts_of_writeAll {h : HostView Entity α} {parts : List α} {v : Value Entity}
    (hw : (writeAll h parts).Ends written (.ok v)) :
    ∃ items, v = .list items ∧
      List.Forall₂ (fun a => WrittenAs written (h.wrap a)) parts items := by
  obtain ⟨items, hitems, hv⟩ := Ends.bind_ok_iff.1 hw
  cases Ends.pure_iff.1 hv
  exact ⟨items, rfl, (Ends.mapM_ok hitems).imp fun _ _ hitem => Ends.request_iff.1 hitem⟩

/-- The order in which the parts are written is not the order in which they stand. -/
theorem laidOut_of_write (hnull : ∀ object, ¬ WrittenAs written object .null)
    (hw : (write tx).Ends written (.ok body)) : LaidOut (WrittenAs written) tx body := by
  obtain ⟨notary, hnotary, hw⟩ := Ends.bind_ok_iff.1 hw
  obtain ⟨timeWindow, hwindow, hw⟩ := Ends.bind_ok_iff.1 hw
  obtain ⟨_, hinputs, hw⟩ := Ends.bind_ok_iff.1 hw
  obtain ⟨_, hattachments, hw⟩ := Ends.bind_ok_iff.1 hw
  obtain ⟨_, houtputs, hw⟩ := Ends.bind_ok_iff.1 hw
  obtain ⟨_, hcommands, hw⟩ := Ends.bind_ok_iff.1 hw
  obtain ⟨privacySalt, hsalt, hw⟩ := Ends.bind_ok_iff.1 hw
  cases Ends.pure_iff.1 hw
  obtain ⟨inputs, rfl, hinputs'⟩ := parts_of_writeAll hinputs
  obtain ⟨attachments, rfl, hattachments'⟩ := parts_of_writeAll hattachments
  obtain ⟨outputs, rfl, houtputs'⟩ := parts_of_writeAll houtputs
  obtain ⟨commands, rfl, hcommands'⟩ := parts_of_writeAll hcommands
  exact ⟨hinputs', hattachments', houtputs', hcommands', part_of_writeOptional hnull hnotary,
    part_of_writeOptional hnull hwindow, Ends.request_iff.1 hsalt⟩

end Writing

section Reading

variable {answers : Value Entity → Except Error Entity → Prop} {h : HostView Entity α}

/-- A value is read as an object, and as nothing else. -/
def ReadAs (answers : Value Entity → Except Error Entity → Prop) (object : Entity)
    (v : Value Entity) : Prop :=
  ∀ answer, answers v answer → answer = .ok object

/-- A part is asked for once, and is of the type that it was written as. -/
theorem gives_readPart (hview : h.Faithful) {a : α} {v : Value Entity}
    (hv : ReadAs answers (h.wrap a) v) : Gives answers (readPart h v) a := by
  refine (Gives.request hv).bind ?_
  rw [hview.downcast]
  exact .pure a

/-- Null is read as the absent part without asking. -/
theorem gives_readOptional (hview : h.Faithful) {a : Option α} {v : Value Entity}
    (hv : OptionalPart (ReadAs answers) h a v) : Gives answers (readOptional h v) a := by
  cases a with
  | none =>
    cases hv
    exact .pure _
  | some a =>
    rw [readOptional]
    · exact (gives_readPart hview hv.2).bind (.pure _)
    · exact hv.1

/-- By induction on the parts: they are read in the order in which they were written. -/
theorem gives_readAll (hview : h.Faithful) (what : String) {parts : List α}
    {items : List (Value Entity)}
    (hitems : List.Forall₂ (fun a => ReadAs answers (h.wrap a)) parts items) :
    Gives answers (readAll h what (.list items)) parts :=
  Gives.mapM (hitems.flip.imp fun _ _ hv => gives_readPart hview hv)

/-- A body with all parts in their places is read as the transaction. -/
theorem gives_read (hbody : LaidOut (ReadAs answers) tx body) : Gives answers (read body) tx := by
  obtain ⟨hinputs, hattachments, houtputs, hcommands, hnotary, hwindow, hsalt⟩ := hbody
  refine (gives_readAll (fun _ => rfl) _ hinputs).bind ?_
  refine (gives_readAll (fun _ => rfl) _ hattachments).bind ?_
  refine (gives_readAll (fun _ => rfl) _ houtputs).bind ?_
  refine (gives_readAll (fun _ => rfl) _ hcommands).bind ?_
  refine (gives_readOptional (fun _ => rfl) hnotary).bind ?_
  refine (gives_readOptional (fun _ => rfl) hwindow).bind ?_
  exact (gives_readPart (fun _ => rfl) hsalt).bind (.pure _)

end Reading

/-- What a transaction is written as by its codec has all parts in their places. -/
theorem laidOut_of_restores {schema : Schema}
    {written : WriteRequest Entity → Except Error (Value Entity) → Prop}
    {answers : Value Entity → Except Error Entity → Prop} (h : Restores schema written answers)
    {owner : String}
    (hw : (codec.write owner (Entity.transactions.wrap tx)).Ends written (.ok body)) :
    LaidOut (WrittenAs written) tx body := by
  have hnull : ∀ object, ¬ WrittenAs written object .null := by
    intro object hobject
    obtain ⟨⟨_, _, he, -⟩, -⟩ := h _ _ hobject
    cases he
  exact laidOut_of_write hnull hw

/-- The body of a transaction is the list of its seven parts, and reading asks for each where
writing put it. -/
theorem undoes (type : TypeNotation) (tx : WireTransaction (Value Entity)) :
    BoundCodec.Undoes ⟨codec, type⟩ (Entity.transactions.wrap tx) := by
  intro schema written answers body hrestores hw
  have hbody := (laidOut_of_restores hrestores hw).imp fun _ _ hv => (hrestores _ _ hv).2
  exact (gives_read hbody).bind (.pure _)

end WireTransaction

end SelfDescribing
