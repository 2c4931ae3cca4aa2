namespace SelfDescribing

/-!
# Repeated names

`firstRepeat? names` is the first name of a list that occurred before, and none exactly when the
names are distinct (`firstRepeat?_eq_none_iff`).
-/

/-- The first name that is in `seen` or occurred before in the list itself. -/
def firstRepeatAfter? (seen : List String) : List String → Option String
  | [] => none
  | name :: rest =>
    if name ∈ seen then some name else firstRepeatAfter? (name :: seen) rest

/-- The first name of a list that occurred before. -/
def firstRepeat? (names : List String) : Option String := firstRepeatAfter? [] names

/-- By induction on the names: none is found if they differ from each other and from those already
seen. -/
theorem firstRepeatAfter?_eq_none_iff {seen names : List String} :
    firstRepeatAfter? seen names = none ↔ names.Nodup ∧ ∀ name ∈ names, name ∉ seen := by
  induction names generalizing seen with
  | nil => simp [firstRepeatAfter?]
  | cons name rest ih =>
    by_cases h : name ∈ seen
    · simp [firstRepeatAfter?, h]
    · simp only [firstRepeatAfter?, h, if_false, ih, List.nodup_cons, List.mem_cons,
        forall_eq_or_imp, not_or, not_false_eq_true, true_and]
      constructor
      · rintro ⟨nodup, fresh⟩
        exact ⟨⟨fun mem => (fresh name mem).1 rfl, nodup⟩, fun x hx => (fresh x hx).2⟩
      · rintro ⟨⟨fresh, nodup⟩, unseen⟩
        exact ⟨nodup, fun x hx => ⟨fun e => fresh (e ▸ hx), unseen x hx⟩⟩

/-- No name is found to be repeated exactly if none is. -/
theorem firstRepeat?_eq_none_iff {names : List String} :
    firstRepeat? names = none ↔ names.Nodup := by
  simp [firstRepeat?, firstRepeatAfter?_eq_none_iff]

end SelfDescribing
