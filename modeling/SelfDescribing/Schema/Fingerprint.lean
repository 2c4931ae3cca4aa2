import SelfDescribing.Schema.Basic
import SelfDescribing.Digest.Sha256

namespace SelfDescribing

/-!
# Fingerprints

The descriptor of a type is made from its name and its fields in order, so that values written
with another list of fields carry another tag.
-/

/-- The bytes that stand for one field in a fingerprint: a zero, the name, a colon, the type, and
an exclamation mark or, where null is allowed, a question mark. -/
def Field.fingerprintBytes (f : Field) : List UInt8 :=
  0 :: (utf8Bytes f.name ++ 0x3a :: (utf8Bytes f.type ++ [if f.mandatory then 0x21 else 0x3f]))

/-- The bytes that a fingerprint is taken of: the type's name and all fields. -/
def fingerprintBytes (typeName : String) (fields : List Field) : List UInt8 :=
  utf8Bytes typeName ++ fields.flatMap Field.fingerprintBytes

/-- The SHA-256 of a type's name and fields, in hexadecimal. -/
def fingerprint (typeName : String) (fields : List Field) : String :=
  Hex.encode (Sha256.digest (fingerprintBytes typeName fields))

/-- The descriptor of values with a type's name and fields. -/
def objectDescriptor (typeName : String) (fields : List Field) : Descriptor :=
  ⟨"evo:" ++ fingerprint typeName fields, none⟩

end SelfDescribing
