/-!
# Bytes

A file holds a list of bytes. Text is stored as UTF-8.
-/

namespace Upkeep

abbrev Bytes := List UInt8

namespace Text

/-- The UTF-8 form of a text. -/
def encode (s : String) : Bytes := s.toByteArray.toList

/-- The text that the bytes spell, unless they are not UTF-8. -/
def decode? (b : Bytes) : Option String := String.fromUTF8? ⟨b.toArray⟩

end Text

end Upkeep
