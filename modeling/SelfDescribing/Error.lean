import SelfDescribing.Text.Hex

namespace SelfDescribing

/-!
# Errors

Everything that can go wrong while a codec is built or used is a value of `Error`.  Its
constructors are causes: what was looked at and what was found.  All wording is in this file.

* `Malformed` — why bytes, a value or an argument do not have the expected structure.
* `PropertyFault`, `Incompatibility` — why a shape, or an old payload, does not fit.
* `ConfigFault` — why a configuration cannot be used.
* `Error.message` — the text shown to a user; `Error.logFields` — the same facts as labelled parts.
* `Error.isShapeError` — the errors that stay until a type's definition changes.
-/

/-! ### Causes -/

/-- Where a byte sequence stops being UTF-8: `length` bytes at `index` are no character, or, with
no `length`, the bytes end inside the character that starts at `index`. -/
structure Utf8Fault where
  index : Nat
  length : Option Nat
deriving DecidableEq

/-- The text of a fault in a UTF-8 sequence. -/
def Utf8Fault.text (f : Utf8Fault) : String :=
  match f.length with
  | some n => s!"invalid utf-8 sequence of {n} bytes from index {f.index}"
  | none => s!"incomplete utf-8 byte sequence from index {f.index}"

/-- Why something does not have the structure a reader expects. -/
inductive Malformed where
  /-- One kind of value was needed and another was there. -/
  | unexpected (expected found : String)
  | argumentOutOfRange (index count : Nat)
  | liveObject (hostType : String)
  | lengthOverflow (length : Nat)
  | invalidChar (scalar position : Nat)
  | invalidUtf8 (position : Nat) (fault : Utf8Fault)
  | oddMap (position count : Nat)
  | endsEarly (position count : Nat)
  | sizeMismatch (position size finish : Nat)
  | unknownHeader
  | trailingBytes (count : Nat)
  | itemCount (what : String) (found expected : Nat)
  | notDescribed (what found : String)
  | notList (what found : String)
  | wrongDescriptor (expected found : String)
  | unknownDescription (found : String)
  | repeatedField (composite field : String)
  | schemaListTooShort
  /-- A named part of a schema entry is of the wrong kind. -/
  | partKind (part found : String)
  | nullProperty (property : String)
  | propertyKind (property expected found : String)
  | fieldCount (typeName : String) (expected found : Nat)
  | notFieldList (typeName found : String)
  | oldFieldCount (typeName : String) (expected found : Nat)
  | rootUnlisted
  | rootNotDescribed (found : String)
  | unlistedDescriptor (descriptor : String)
  | restrictedWithoutCodec (typeName : String)
  | notObject (found : String)
  /-- A reason in the words of a hand-written codec. -/
  | stated (reason : String)
deriving DecidableEq

/-- Why a property does not fit its type's constructor or its declared type. -/
inductive PropertyFault where
  | repeatedProperty
  | repeatedParameter
  | noProperty
  | unreadable
  | typeDiffers (property parameter : String)
  | getterReturned (found declared : String)
  | stated (reason : String)
deriving DecidableEq

/-- Why an old payload cannot supply a field of the live type. -/
inductive Incompatibility where
  | absent
  | notAssignable (old live : String)
  | evolutionDisabled
  | stated (reason : String)
deriving DecidableEq

/-- Why a configuration cannot be used. -/
inductive ConfigFault where
  /-- The text of the configuration is not well formed, or sets something that is no setting. -/
  | malformedText
  | zeroDepth
  | unreadable (path reason : String)
  | stated (reason : String)
deriving DecidableEq

/-- An error while building or using a codec. -/
inductive Error where
  | noConstructor (typeName : String)
  | ambiguousConstructor (typeName : String) (count : Nat)
  | propertyMismatch (typeName property : String) (fault : PropertyFault)
  | malformed (reason : Malformed)
  | incompatible (typeName field : String) (reason : Incompatibility)
  | unsupportedWrite (typeName : String)
  | typeNotFound (typeName : String)
  | typeMismatch (expected found : String)
  | duplicateType (typeName : String)
  | bufferTooShort (requested available position : Nat)
  | invalidFormatCode (code : UInt8) (position : Nat)
  | depthExceeded (limit : Nat)
  | config (fault : ConfigFault)
  | other (text : String)
deriving DecidableEq

/-! ### Wording -/

/-- The text of a structural fault. -/
def Malformed.text : Malformed → String
  | .unexpected expected found => s!"expected {expected}, found {found}"
  | .argumentOutOfRange index count => s!"argument {index} out of range ({count} arguments)"
  | .liveObject hostType => s!"live instance of {hostType} reached the value encoder"
  | .lengthOverflow length => s!"length {length} exceeds 32 bits"
  | .invalidChar scalar position =>
      s!"invalid char scalar 0x{Hex.ofNat scalar} at position {position}"
  | .invalidUtf8 position fault => s!"invalid UTF-8 at position {position}: {fault.text}"
  | .oddMap position count => s!"map at position {position} has an odd element count {count}"
  | .endsEarly position count =>
      s!"compound at position {position} declares {count} elements but its size ends early"
  | .sizeMismatch position size finish =>
      s!"compound at position {position} declares size {size} but its elements end at offset "
        ++ toString finish
  | .unknownHeader => "missing or unknown payload header"
  | .trailingBytes count => s!"{count} trailing bytes after envelope"
  | .itemCount what found expected => s!"{what} has {found} items, expected {expected}"
  | .notDescribed what found => s!"expected described {what}, found {found}"
  | .notList what found => s!"expected list for {what}, found {found}"
  | .wrongDescriptor expected found => s!"expected {expected} descriptor, found {found}"
  | .unknownDescription found => s!"unknown type notation descriptor {found}"
  | .repeatedField composite field =>
      s!"composite '{composite}' lists field '{field}' more than once"
  | .schemaListTooShort => "schema list is too short"
  | .partKind part found => s!"{part} is {found}"
  | .nullProperty property => s!"null value for non-nullable property '{property}'"
  | .propertyKind property expected found =>
      s!"property '{property}' expects {expected}, found {found}"
  | .fieldCount typeName expected found =>
      s!"'{typeName}' expects {expected} fields, payload has {found}"
  | .notFieldList typeName found => s!"'{typeName}' expects a field list, found {found}"
  | .oldFieldCount typeName expected found =>
      s!"old shape of '{typeName}' has {expected} fields, payload has {found}"
  | .rootUnlisted => "root descriptor is not listed in the payload schema"
  | .rootNotDescribed found => s!"payload root must be a described value, found {found}"
  | .unlistedDescriptor descriptor =>
      s!"descriptor {descriptor} is not listed in the payload schema"
  | .restrictedWithoutCodec typeName =>
      s!"'{typeName}' arrived as a restricted type but has no custom codec"
  | .notObject found => s!"expected a described object, found {found}"
  | .stated reason => reason

/-- The text of a property fault. -/
def PropertyFault.text : PropertyFault → String
  | .repeatedProperty => "property is declared more than once"
  | .repeatedParameter => "constructor parameter is declared more than once"
  | .noProperty => "no property matches the constructor parameter"
  | .unreadable => "property is not readable"
  | .typeDiffers property parameter =>
      s!"property type {property} differs from constructor parameter type {parameter}"
  | .getterReturned found declared => s!"getter returned {found} for a {declared} property"
  | .stated reason => reason

/-- The text of an incompatibility. -/
def Incompatibility.text : Incompatibility → String
  | .absent => "field is absent from the payload and not nullable"
  | .notAssignable old live => s!"old type {old} cannot be passed as {live}"
  | .evolutionDisabled =>
      "payload shape differs from the live shape and evolution is disabled"
  | .stated reason => reason

/-- The text of a configuration fault. -/
def ConfigFault.text : ConfigFault → String
  | .malformedText => "the text is not a list of known settings"
  | .zeroDepth => "max_depth must be at least 1"
  | .unreadable path reason => s!"{path}: {reason}"
  | .stated reason => reason

namespace Error

/-- The text shown for an error. -/
def message : Error → String
  | .noConstructor typeName =>
      s!"No constructor for deserialization found for '{typeName}'"
  | .ambiguousConstructor typeName count =>
      s!"{count} constructors of '{typeName}' are marked for deserialization, "
        ++ "expected at most one"
  | .propertyMismatch typeName property fault =>
      s!"Property mismatch on '{typeName}.{property}': {fault.text}"
  | .malformed reason => s!"Malformed envelope: {reason.text}"
  | .incompatible typeName field reason =>
      s!"Incompatible schema change for '{typeName}' field '{field}': {reason.text}"
  | .unsupportedWrite typeName => s!"Codec for '{typeName}' is read-only and cannot write"
  | .typeNotFound typeName => s!"Type not found: '{typeName}'"
  | .typeMismatch expected found =>
      s!"Type mismatch: expected '{expected}', payload holds '{found}'"
  | .duplicateType typeName => s!"Type '{typeName}' is already registered"
  | .bufferTooShort requested available position =>
      s!"Buffer too short: requested {requested} bytes at position {position}, "
        ++ s!"but only {available} bytes available"
  | .invalidFormatCode code position =>
      s!"Invalid format code 0x{Hex.encode [code]} at position {position}"
  | .depthExceeded limit => s!"Nesting depth exceeds limit of {limit}"
  | .config fault => s!"Configuration error: {fault.text}"
  | .other text => s!"Other error: {text}"

/-- The parts of an error with their labels, in the order in which they are logged. -/
def logFields : Error → List (String × String)
  | .noConstructor typeName | .unsupportedWrite typeName | .typeNotFound typeName
  | .duplicateType typeName => [("type", typeName)]
  | .ambiguousConstructor typeName count => [("type", typeName), ("count", toString count)]
  | .propertyMismatch typeName property fault =>
      [("type", typeName), ("property", property), ("reason", fault.text)]
  | .malformed reason => [("reason", reason.text)]
  | .incompatible typeName field reason =>
      [("type", typeName), ("field", field), ("reason", reason.text)]
  | .typeMismatch expected found => [("expected", expected), ("found", found)]
  | .bufferTooShort requested available position =>
      [("requested", toString requested), ("available", toString available),
        ("position", toString position)]
  | .invalidFormatCode code position =>
      [("code", "0x" ++ Hex.encode [code]), ("position", toString position)]
  | .depthExceeded limit => [("limit", toString limit)]
  | .config fault => [("message", fault.text)]
  | .other text => [("message", text)]

/-- The errors of resolving a type's shape, which stay until the type's definition changes. -/
def isShapeError : Error → Bool
  | .noConstructor _ | .ambiguousConstructor .. | .propertyMismatch .. => true
  | _ => false

/-- A property without a getter was asked for its value. -/
def noAccessor (property : String) : Error := .other s!"property '{property}' has no accessor"

/-- A file could not be read or written. -/
def fileFailure (reason : String) : Error := .other s!"IO error: {reason}"

/-- A hand-written codec describes its type under another name than its own. -/
def misnamed (typeName described : String) : Error :=
  .other s!"custom codec for '{typeName}' produced a notation named '{described}'"

end Error

end SelfDescribing
