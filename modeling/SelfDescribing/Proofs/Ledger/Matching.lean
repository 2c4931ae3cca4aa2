import SelfDescribing.Ledger.Codecs
import SelfDescribing.Proofs.Factory.Reordering

namespace SelfDescribing

open Exchange

/-!
# Ledger codecs and the order of fields

The hand-written codecs of the ledger types ask for the same at bodies that differ in the order of
fields and in descriptors alone.

* `BytesType.matches_read`, `WireTransaction.matches_read` — what the codecs ask for.
* `Setting.customsMatch_of_ledger` — factories with these codecs alone.

The codecs are written by hand and take lists apart by length.  As relisting keeps lists and their
lengths, it is enough to follow them branch by branch.
-/

variable {α : Type} {s : Setting Entity} {S S' : Schema} {v v' : Value Entity}

/-- Bytes are read without asking, and relisting changes no bytes. -/
theorem BytesType.matches_read (t : BytesType α) (h : s.Relists S S' v v') :
    (t.codec.read S v).Matches (s.Relists S S') (t.codec.read S' v') := by
  have hbinary : Alike v.toBinary v'.toBinary := by
    cases h with
    | leaf => exact .refl _
    | _ => exact .error rfl
  exact (Matches.done hbinary).bind fun _ => .pure _

namespace WireTransaction

/-- A part is asked for in both schemas alike, and checked alike. -/
theorem matches_readPart (h : HostView Entity α) (hv : s.Relists S S' v v') :
    (readPart h v).Matches (s.Relists S S') (readPart h v') :=
  (Matches.request hv).bind fun _ => .done (.refl _)

/-- Null stays null in every schema. -/
theorem matches_readOptional (h : HostView Entity α) (hv : s.Relists S S' v v') :
    (readOptional h v).Matches (s.Relists S S') (readOptional h v') := by
  have hsome : ∀ {v : Value Entity}, v ≠ .null →
      readOptional h v = do return some (← readPart h v) := by
    intro v hv
    rw [readOptional]
    exact hv
  by_cases hnull : v = .null
  · subst hnull
    rw [hv.eq_null_iff.2 rfl]
    exact .pure _
  · rw [hsome hnull, hsome (mt hv.eq_null_iff.1 hnull)]
    exact (matches_readPart h hv).bind fun _ => .pure _

/-- By induction on the items: they are asked for in the same order. -/
theorem matches_readAll (h : HostView Entity α) (what : String) (hv : s.Relists S S' v v') :
    (readAll h what v).Matches (s.Relists S S') (readAll h what v') := by
  have hother : ∀ {v : Value Entity}, (∀ items, v ≠ .list items) → readAll h what v =
      throw (.malformed (.stated s!"transaction {what} must be a list, found {v.kind}")) := by
    intro v hv
    rw [readAll]
    exact hv
  by_cases hlist : ∃ items, v = .list items
  · obtain ⟨items, rfl⟩ := hlist
    obtain ⟨items', rfl, hitems⟩ := Setting.Relists.list_iff.1 hv
    exact .mapM (hitems.imp fun _ _ hitem => matches_readPart h hitem)
  · have hlist : ∀ items, v ≠ .list items := fun items hv => hlist ⟨items, hv⟩
    rw [hother hlist, hother (hv.ne_list hlist)]
    exact .throw rfl

/-- A list of seven parts is read part by part. -/
theorem matches_readParts {parts parts' : List (Value Entity)}
    (h : List.Forall₂ (s.Relists S S') parts parts') (hseven : parts.length = 7) :
    (read (.list parts)).Matches (s.Relists S S') (read (.list parts')) := by
  rcases h with _ | ⟨hinputs, _ | ⟨hattachments, _ | ⟨houtputs, _ | ⟨hcommands, _ | ⟨hnotary,
    _ | ⟨hwindow, _ | ⟨hsalt, _ | _⟩⟩⟩⟩⟩⟩⟩
  -- The shorter lists first.
  iterate 7 exact nomatch hseven
  · rw [read, read]
    refine (matches_readAll _ _ hinputs).bind fun _ => ?_
    refine (matches_readAll _ _ hattachments).bind fun _ => ?_
    refine (matches_readAll _ _ houtputs).bind fun _ => ?_
    refine (matches_readAll _ _ hcommands).bind fun _ => ?_
    refine (matches_readOptional _ hnotary).bind fun _ => ?_
    refine (matches_readOptional _ hwindow).bind fun _ => ?_
    exact (matches_readPart _ hsalt).bind fun _ => .pure _
  · cases hseven

/-- A body of another length is refused with both lengths named. -/
theorem read_wrong_length {parts : List (Value Entity)} (h : parts.length ≠ 7) :
    read (.list parts) = throw (.malformed (.stated
      s!"transaction body has {parts.length} elements, expected 7")) := by
  rw [read]
  rintro _ _ _ _ _ _ _ rfl
  exact h rfl

/-- A body that is no list is refused with its kind named. -/
theorem read_not_list (h : ∀ parts, v ≠ .list parts) : read v = throw (.malformed (.stated
    s!"transaction body must be a list, found {v.kind}")) := by
  cases v with
  | list parts => exact absurd rfl (h parts)
  | _ => rfl

/-- Relisted bodies are lists of the same length or no lists, and their parts are read alike. -/
theorem matches_read (h : s.Relists S S' v v') :
    (codec.read S v).Matches (s.Relists S S') (codec.read S' v') := by
  refine Matches.bind ?_ fun _ => .pure _
  by_cases hlist : ∃ parts, v = .list parts
  · obtain ⟨parts, rfl⟩ := hlist
    obtain ⟨parts', rfl, hparts⟩ := Setting.Relists.list_iff.1 h
    by_cases hseven : parts.length = 7
    · exact matches_readParts hparts hseven
    · rw [read_wrong_length hseven, read_wrong_length (hparts.length_eq ▸ hseven)]
      exact .throw rfl
  · have hlist : ∀ parts, v ≠ .list parts := fun parts hv => hlist ⟨parts, hv⟩
    rw [read_not_list hlist, read_not_list (h.ne_list hlist)]
    exact .throw rfl

end WireTransaction

/-- The hand-written codecs of the ledger types. -/
def ledgerCodecs : List (CustomCodec Entity) :=
  [BytesType.secureHash.codec, BytesType.privacySalt.codec, BytesType.opaqueBytes.codec,
    WireTransaction.codec]

/-- The order of fields does not matter to factories whose custom codecs are those of the ledger
types. -/
theorem Setting.customsMatch_of_ledger
    (h : ∀ b ∈ s.customs.codecs.values, b.codec ∈ ledgerCodecs) : s.CustomsMatch S S' := by
  intro b hb body body' hbody
  have hcodec := h b hb
  unfold ledgerCodecs at hcodec
  rw [BoundCodec.read, BoundCodec.read]
  obtain hsame | hsame | hsame | hsame : b.codec = BytesType.secureHash.codec ∨
      b.codec = BytesType.privacySalt.codec ∨ b.codec = BytesType.opaqueBytes.codec ∨
        b.codec = WireTransaction.codec := by simpa using hcodec
  · rw [hsame]
    exact BytesType.matches_read _ hbody
  · rw [hsame]
    exact BytesType.matches_read _ hbody
  · rw [hsame]
    exact BytesType.matches_read _ hbody
  · rw [hsame]
    exact WireTransaction.matches_read hbody

end SelfDescribing
