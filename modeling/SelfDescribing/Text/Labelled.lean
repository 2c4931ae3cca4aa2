namespace SelfDescribing.Labelled

/-!
# Labelled text

The text of records in diagnostics: the name of the record and, in braces, its fields with their
labels.
-/

/-- A record: `Name { label: text, … }`. -/
def record (name : String) (fields : List (String × String)) : String :=
  name ++ " \x7b " ++ ", ".intercalate (fields.map (fun f => f.1 ++ ": " ++ f.2)) ++ " \x7d"

/-- A list: `[a, b]`. -/
def list (items : List String) : String := "[" ++ ", ".intercalate items ++ "]"

/-- A value that may be missing: `Some(a)` or `None`. -/
def option : Option String → String
  | some s => "Some(" ++ s ++ ")"
  | none => "None"

end SelfDescribing.Labelled
