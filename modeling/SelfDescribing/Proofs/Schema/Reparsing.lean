import Mathlib.Data.List.DropRight
import Mathlib.Logic.Function.Iterate
import SelfDescribing.Schema.FieldType

namespace SelfDescribing

/-!
# Reading the texts of field types back

A schema has the declared types of fields as texts only, and these are read when a payload is.

* `Trimmed` — no blank stands at either end; `trimBlanks_eq_self_iff`, `trimmed_trimBlanks`.
* `FieldType.parseLevel` — one level of reading, with a reader for the text of a list's items;
  `FieldType.parseLevel_iterate`, a text is read in a sixth of its length of levels.
* `FieldType.Bare` — the names that no other type is written as; `FieldType.parse_eq_named_iff`.
* `FieldType.text_reparses` — which types their texts are read as again.

Parsing a text strips blanks and a pair of brackets and then looks at what is left, so that the text
gets shorter at each level.  `parseLevel_cases` says what one level can do, and the rest is
induction on the number of levels.
-/

/-! ### Blanks at the ends -/

/-- No blank stands at either end. -/
structure Trimmed (cs : List Char) : Prop where
  first : ∀ c ∈ cs.head?, isBlank c = false
  last : ∀ c ∈ cs.getLast?, isBlank c = false

theorem trimBlanks_eq_rdropWhile (cs : List Char) :
    trimBlanks cs = (cs.dropWhile isBlank).rdropWhile isBlank := rfl

/-- Nothing is dropped in front if there is no blank. -/
theorem dropWhile_isBlank_eq_self_iff {cs : List Char} :
    cs.dropWhile isBlank = cs ↔ ∀ c ∈ cs.head?, isBlank c = false := by
  rcases cs with - | ⟨d, rest⟩
  · simp
  · rw [List.dropWhile_eq_self_iff]
    simp

/-- Nothing is dropped behind if there is no blank. -/
theorem rdropWhile_isBlank_eq_self_iff {cs : List Char} :
    cs.rdropWhile isBlank = cs ↔ ∀ c ∈ cs.getLast?, isBlank c = false := by
  rw [List.rdropWhile_eq_self_iff]
  constructor
  · intro h c hc
    obtain ⟨front, rfl⟩ := List.getLast?_eq_some_iff.1 hc
    simpa using h (by simp)
  · intro h hne
    simpa using h _ (List.getLast?_eq_some_getLast hne)

/-- Nothing is trimmed off exactly if there is no blank at either end. -/
theorem trimBlanks_eq_self_iff {cs : List Char} : trimBlanks cs = cs ↔ Trimmed cs := by
  rw [trimBlanks_eq_rdropWhile]
  constructor
  · intro h
    -- Nothing is dropped at the front, since the whole is not longer than what is left there.
    have hfront : cs.dropWhile isBlank = cs := by
      have hshort := (List.rdropWhile_prefix isBlank (cs.dropWhile isBlank)).length_le
      rw [h] at hshort
      exact (List.dropWhile_suffix isBlank).eq_of_length_le hshort
    rw [hfront] at h
    exact ⟨dropWhile_isBlank_eq_self_iff.1 hfront, rdropWhile_isBlank_eq_self_iff.1 h⟩
  · intro h
    rw [dropWhile_isBlank_eq_self_iff.2 h.first, rdropWhile_isBlank_eq_self_iff.2 h.last]

/-- What was trimmed has no blank at either end. -/
theorem trimmed_trimBlanks (cs : List Char) : Trimmed (trimBlanks cs) := by
  rw [trimBlanks_eq_rdropWhile]
  constructor
  · intro c hc
    -- What is left after the back is trimmed begins as what was left after the front was.
    obtain ⟨back, hback⟩ := List.rdropWhile_prefix isBlank (cs.dropWhile isBlank)
    apply dropWhile_isBlank_eq_self_iff.1 (List.dropWhile_idempotent isBlank cs) c
    rw [← hback, List.head?_append, Option.mem_def.1 hc]
    rfl
  · exact rdropWhile_isBlank_eq_self_iff.1 (List.rdropWhile_idempotent isBlank _)

namespace FieldType

/-! ### One level -/

/-- The element of a list type is what stands between the brackets. -/
theorem listElement?_eq_some_iff {cs inner : List Char} :
    listElement? cs = some inner ↔ cs = "list<".toList ++ inner ++ ['>'] := by
  constructor
  · intro h
    unfold listElement? at h
    split at h
    · split at h
      case isTrue hlast =>
        obtain ⟨front, rfl⟩ := List.getLast?_eq_some_iff.1 hlast
        rw [List.dropLast_concat, Option.some.injEq] at h
        subst h
        rfl
      case isFalse => cases h
    · cases h
  · rintro rfl
    simp [listElement?, List.getLast?_cons]

/-- The names that no primitive, no list and not `*` is written as, without blanks around. -/
structure Bare (name : String) : Prop where
  trimmed : Trimmed name.toList
  ne_any : name ≠ any.text
  ne_primitive : ∀ p, name ≠ (primitive p).text
  ne_list : ∀ element, name ≠ "list<" ++ element ++ ">"

/-- One level of reading: `reader` reads the text of the items' type of a list. -/
def parseLevel (reader : List Char → FieldType) (cs : List Char) : FieldType :=
  if trimBlanks cs = ['*'] then any
  else match listElement? (trimBlanks cs) with
    | some inner => list (reader inner)
    | none =>
      match Primitive.ofName? (String.ofList (trimBlanks cs)) with
      | some p => primitive p
      | none => named (String.ofList (trimBlanks cs))

/-- A type is read level by level. -/
theorem parseChars_eq (cs : List Char) : parseChars cs = parseLevel parseChars cs := by
  rw [parseChars, parseLevel]
  split
  · rfl
  · split
    case h_1 inner hlist => simp only [hlist]
    case h_2 hlist =>
      rcases Primitive.ofName? (String.ofList (trimBlanks cs)) with - | p <;> simp only [hlist]

section Level

variable {reader : List Char → FieldType} {cs : List Char}

/-- A star, with blanks around it, is the type of all values. -/
theorem parseLevel_any (h : trimBlanks cs = any.text.toList) : parseLevel reader cs = any :=
  if_pos h

/-- What is in the brackets of a list type is left to the reader of elements. -/
theorem parseLevel_list {inner : List Char}
    (h : trimBlanks cs = "list<".toList ++ inner ++ ['>']) :
    parseLevel reader cs = list (reader inner) := by
  have hany : trimBlanks cs ≠ ['*'] := by
    rw [h]
    simp
  simp only [parseLevel, if_neg hany, listElement?_eq_some_iff.2 h]

/-- The name of a primitive, with blanks around it, is this primitive. -/
theorem parseLevel_primitive {p : Primitive} (h : trimBlanks cs = (primitive p).text.toList) :
    parseLevel reader cs = primitive p := by
  simp only [parseLevel, h]
  cases p <;> rfl

/-- A bare name, with blanks around it, is the name of a type. -/
theorem parseLevel_named {name : String} (h : trimBlanks cs = name.toList) (hbare : Bare name) :
    parseLevel reader cs = named name := by
  have hany : name.toList ≠ ['*'] := fun heq => hbare.ne_any (String.toList_inj.1 heq)
  have hlist : listElement? name.toList = none := by
    rw [Option.eq_none_iff_forall_ne_some]
    intro inner hinner
    apply hbare.ne_list (String.ofList inner)
    rw [listElement?_eq_some_iff] at hinner
    apply String.toList_inj.1
    simpa using hinner
  have hprimitive : Primitive.ofName? name = none := by
    rw [Primitive.ofName?, List.find?_eq_none]
    intro p _ hp
    exact hbare.ne_primitive p (of_decide_eq_true hp).symm
  simp only [parseLevel, h, if_neg hany, hlist, String.ofList_toList, hprimitive]

/-- What one level of reading gives, and for which texts. -/
theorem parseLevel_cases (reader : List Char → FieldType) (cs : List Char) :
    parseLevel reader cs = any ∨
    (∃ inner, trimBlanks cs = "list<".toList ++ inner ++ ['>'] ∧
      parseLevel reader cs = list (reader inner)) ∨
    (∃ p, parseLevel reader cs = primitive p) ∨
    ∃ name, Bare name ∧ trimBlanks cs = name.toList ∧ parseLevel reader cs = named name := by
  by_cases hany : trimBlanks cs = any.text.toList
  · exact .inl (parseLevel_any hany)
  by_cases hlist : ∃ inner, trimBlanks cs = "list<".toList ++ inner ++ ['>']
  · obtain ⟨inner, hinner⟩ := hlist
    exact .inr (.inl ⟨inner, hinner, parseLevel_list hinner⟩)
  by_cases hprimitive : ∃ p, trimBlanks cs = (primitive p).text.toList
  · obtain ⟨p, hp⟩ := hprimitive
    exact .inr (.inr (.inl ⟨p, parseLevel_primitive hp⟩))
  -- What is left is none of the other three, which is what a bare name is.
  have hbare : Bare (String.ofList (trimBlanks cs)) := by
    refine ⟨?_, ?_, ?_, ?_⟩
    · rw [String.toList_ofList]
      exact trimmed_trimBlanks cs
    · intro h
      exact hany (by rw [← h, String.toList_ofList])
    · intro p h
      exact hprimitive ⟨p, by rw [← h, String.toList_ofList]⟩
    · intro element h
      exact hlist ⟨element.toList, by simpa using congrArg String.toList h⟩
  have htext : trimBlanks cs = (String.ofList (trimBlanks cs)).toList := by
    rw [String.toList_ofList]
  exact .inr (.inr (.inr ⟨_, hbare, htext, parseLevel_named htext hbare⟩))

omit reader in
/-- The element of a list type is at least six characters shorter than the type. -/
theorem length_add_six_le {inner : List Char}
    (h : trimBlanks cs = "list<".toList ++ inner ++ ['>']) : inner.length + 6 ≤ cs.length := by
  have hlength := congrArg List.length h
  have htrim := length_trimBlanks_le cs
  simp at hlength
  omega

/-- A level hands on only the text between `list<` and `>`. -/
theorem parseLevel_congr {other : List Char → FieldType}
    (h : ∀ inner, inner.length + 6 ≤ cs.length → reader inner = other inner) :
    parseLevel reader cs = parseLevel other cs := by
  unfold parseLevel
  split
  · rfl
  · split
    case h_1 inner hinner =>
      rw [h inner (length_add_six_le (listElement?_eq_some_iff.1 hinner))]
    case h_2 => rfl

end Level

/-- A text is read in a sixth of its length of levels: below these, no reader is called. -/
theorem parseLevel_iterate (rest : List Char → FieldType) {n : Nat} {cs : List Char}
    (h : cs.length < 6 * n) : parseLevel^[n] rest cs = parseChars cs := by
  induction n generalizing cs with
  | zero => omega
  | succ n ih =>
    rw [Function.iterate_succ_apply', parseChars_eq]
    apply parseLevel_congr
    intro inner hinner
    exact ih (by omega)

/-! ### The text of a type -/

/-- The names of registered types in a type. -/
def names : FieldType → List String
  | list element => element.names
  | named name => [name]
  | primitive _ | any => []

/-- A name is read as a name exactly if it is no text of another kind and has no blanks around. -/
theorem parse_eq_named_iff {name : String} : parse name = named name ↔ Bare name := by
  rw [parse, parseChars_eq]
  constructor
  · intro h
    rcases parseLevel_cases parseChars name.toList with
      hany | ⟨inner, -, hlist⟩ | ⟨p, hprimitive⟩ | ⟨other, hbare, -, hname⟩
    · rw [hany] at h
      cases h
    · rw [hlist] at h
      cases h
    · rw [hprimitive] at h
      cases h
    · rw [hname] at h
      cases h
      exact hbare
  · intro hbare
    exact parseLevel_named (trimBlanks_eq_self_iff.2 hbare.trimmed) hbare

theorem parse_any : parse any.text = any := by
  rw [parse, parseChars_eq]
  exact parseLevel_any rfl

theorem parse_primitive (p : Primitive) : parse (primitive p).text = primitive p := by
  rw [parse, parseChars_eq]
  apply parseLevel_primitive
  cases p <;> rfl

/-- The text of a list type is read as the list of what the element's text is read as. -/
theorem parse_list (element : FieldType) :
    parse (list element).text = list (parse element.text) := by
  have hchars : (list element).text.toList = "list<".toList ++ element.text.toList ++ ['>'] := by
    simp [text]
  rw [parse, parseChars_eq]
  apply parseLevel_list
  -- The brackets are no blanks, so that none is trimmed around them.
  rw [hchars, trimBlanks_eq_self_iff]
  constructor
  · intro c hc
    cases hc
    rfl
  · intro c hc
    rw [List.getLast?_concat] at hc
    cases hc
    rfl

/-- The names that reading gives are read as themselves. -/
theorem bare_of_mem_names (cs : List Char) : ∀ name ∈ (parseChars cs).names, Bare name := by
  induction hn : cs.length using Nat.strongRecOn generalizing cs with
  | ind n ih =>
    subst hn
    intro name hname
    rw [parseChars_eq] at hname
    rcases parseLevel_cases parseChars cs with
      hany | ⟨inner, hinner, hlist⟩ | ⟨p, hprimitive⟩ | ⟨other, hbare, -, hother⟩
    · rw [hany] at hname
      cases hname
    · rw [hlist] at hname
      have hshort : inner.length + 6 ≤ cs.length := length_add_six_le hinner
      exact ih inner.length (by omega) inner rfl name hname
    · rw [hprimitive] at hname
      cases hname
    · rw [hother] at hname
      rw [names, List.mem_singleton] at hname
      exact hname ▸ hbare

/-- A type is read back from its text exactly if its names are. -/
theorem parse_text_eq_iff (t : FieldType) :
    parse t.text = t ↔ ∀ name ∈ t.names, parse name = named name := by
  induction t with
  | primitive p => simp [parse_primitive, names]
  | any => simp [parse_any, names]
  | list element ih => rw [parse_list, list.injEq, names, ih]
  | named name => simp [text, names]

/-- Reading a text ends within a sixth of its length of levels, and what it gives is read back from
its own text; so is a type exactly if each name in it is, the names that are being the ones without
blanks around that are no `*`, no primitive and no list. -/
theorem text_reparses :
    (∀ (rest : List Char → FieldType) (s : String),
      parseLevel^[s.length / 6 + 1] rest s.toList = parse s) ∧
    (∀ s : String, parse (parse s).text = parse s) ∧
    (∀ t : FieldType, parse t.text = t ↔ ∀ name ∈ t.names, parse name = named name) ∧
    ∀ name : String, parse name = named name ↔ Bare name := by
  refine ⟨?_, ?_, parse_text_eq_iff, fun name => parse_eq_named_iff⟩
  · intro rest s
    apply parseLevel_iterate
    rw [String.length_toList]
    omega
  · intro s
    rw [parse_text_eq_iff]
    intro name hname
    exact parse_eq_named_iff.2 (bare_of_mem_names s.toList name hname)

end FieldType

end SelfDescribing
