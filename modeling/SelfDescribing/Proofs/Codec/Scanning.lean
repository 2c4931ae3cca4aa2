import SelfDescribing.Codec.Custom
import SelfDescribing.Proofs.Table

namespace SelfDescribing.CustomCodecs

/-!
# The order in which custom codecs are scanned

A hash table may be scanned in any order, so that of several custom codecs for one descriptor any
may be found.  Where there is at most one, the order does not show.

* `codecFor?_eq_some` — what is found for a descriptor is a registered codec that admits it.
* `Same` — two registries hold the same codecs, under the same names and host types.
* `Apart` — no descriptor belongs to two codecs.
* `AnswersAs` — two registries that answer alike whatever they are asked for; `Same.answersAs`.

The model has the order as an argument of the look-up, `ScanOrder.arrange`, which may be any
permutation of the keys.  So what holds for every order holds of a hash table, and what depends on
it can be exhibited.
-/

variable {ω : Type} {c c' : CustomCodecs ω} {b : BoundCodec ω} {descriptor : Value ω}

/-- Scanning leaves no codec out, and comes across registered codecs only. -/
theorem mem_scanned_iff : b ∈ c.scanned ↔ ∃ name, c.codec? name = some b := by
  rw [scanned, List.mem_filterMap]
  constructor
  · rintro ⟨name, -, hb⟩
    exact ⟨name, hb⟩
  · rintro ⟨name, hb⟩
    exact ⟨name, ScanOrder.mem_arrange_iff.2 (Table.mem_keys_iff.2 ⟨b, hb⟩), hb⟩

/-- What is found for a descriptor is registered under a name, and its own descriptor admits it. -/
theorem codecFor?_eq_some (h : c.codecFor? descriptor = some b) :
    (∃ name, c.codec? name = some b) ∧ b.type.descriptor.admits descriptor = true := by
  rw [codecFor?] at h
  have hadmits := List.find?_some h
  exact ⟨mem_scanned_iff.1 (List.mem_of_find?_eq_some h), hadmits⟩

/-- What is found for a descriptor is one of the registered codecs. -/
theorem mem_values_of_codecFor? (h : c.codecFor? descriptor = some b) : b ∈ c.codecs.values := by
  obtain ⟨⟨name, hb⟩, -⟩ := codecFor?_eq_some h
  exact Table.mem_values_of_find? hb

/-- Nothing is found only where no registered codec admits the descriptor. -/
theorem codecFor?_eq_none_iff : c.codecFor? descriptor = none ↔
    ∀ name b, c.codec? name = some b → b.type.descriptor.admits descriptor = false := by
  rw [codecFor?, List.find?_eq_none]
  constructor
  · intro h name b hb
    exact Bool.eq_false_iff.2 (h b (mem_scanned_iff.2 ⟨name, hb⟩))
  · intro h b hb
    obtain ⟨name, hb⟩ := mem_scanned_iff.1 hb
    exact Bool.eq_false_iff.1 (h name b hb)

/-- Two registries hold the same codecs, in whatever order they are scanned. -/
structure Same (c c' : CustomCodecs ω) : Prop where
  codec? : ∀ name, c'.codec? name = c.codec? name
  codecOf? : ∀ t, c'.codecOf? t = c.codecOf? t

/-- No descriptor belongs to two codecs. -/
def Apart (c : CustomCodecs ω) : Prop :=
  ∀ ⦃name name' b b'⦄, c.codec? name = some b → c.codec? name' = some b' →
    ∀ descriptor : Value ω, b.type.descriptor.admits descriptor = true →
      b'.type.descriptor.admits descriptor = true → b = b'

/-- A single codec shares its descriptor with no other. -/
theorem apart_of_forall_eq (h : ∀ b' ∈ c.codecs.values, b' = b) : c.Apart := by
  intro name name' b₁ b₂ hb₁ hb₂ _ _ _
  exact (h b₁ (Table.mem_values_of_find? hb₁)).trans (h b₂ (Table.mem_values_of_find? hb₂)).symm

/-- Two registries answer alike, whether they are asked for a name, a host type or a descriptor. -/
structure AnswersAs (c c' : CustomCodecs ω) : Prop extends Same c c' where
  codecFor? : ∀ descriptor, c'.codecFor? descriptor = c.codecFor? descriptor

theorem Same.refl (c : CustomCodecs ω) : c.Same c := ⟨fun _ => rfl, fun _ => rfl⟩

theorem AnswersAs.refl (c : CustomCodecs ω) : c.AnswersAs c := ⟨.refl c, fun _ => rfl⟩

/-- Where no descriptor belongs to two codecs, the order in which they are scanned does not show. -/
theorem Same.answersAs (h : c.Same c') (hapart : c.Apart) : c.AnswersAs c' := by
  refine ⟨h, fun descriptor => ?_⟩
  cases hfound : c.codecFor? descriptor with
  | none =>
    rw [codecFor?_eq_none_iff] at hfound ⊢
    intro name b hb
    exact hfound name b ((h.codec? name).symm.trans hb)
  | some b =>
    obtain ⟨⟨name, hb⟩, hadmits⟩ := codecFor?_eq_some hfound
    cases hfound' : c'.codecFor? descriptor with
    | none =>
      -- The codec is there under its name, and would have been found.
      have hnone := codecFor?_eq_none_iff.1 hfound' name b ((h.codec? name).trans hb)
      cases hadmits.symm.trans hnone
    | some b' =>
      obtain ⟨⟨name', hb'⟩, hadmits'⟩ := codecFor?_eq_some hfound'
      rw [h.codec? name'] at hb'
      exact congrArg some (hapart hb' hb descriptor hadmits' hadmits)

end SelfDescribing.CustomCodecs
