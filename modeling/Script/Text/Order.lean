/-!
# The order of texts

Texts are ordered as a dictionary orders words, by the bytes of their UTF-8 encodings: the first
byte in which two texts differ decides, and a text comes before its continuations.
-/

namespace Script.Text

/-- The bytes of the UTF-8 encoding of a text. -/
def bytes (s : String) : List UInt8 := s.toByteArray.data.toList

/-- The order of two texts. -/
def order (s t : String) : Ordering := List.compareLex compare (bytes s) (bytes t)

end Script.Text
