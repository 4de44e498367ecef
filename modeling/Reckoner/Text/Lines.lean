/-!
# Lines of a byte stream

Lines end at a line feed. What stands behind the last line feed is a line of its own only if it is
not empty. The line feed does not belong to the line, nor do carriage returns in front of it. A line
is text if its bytes are valid UTF-8.
-/

namespace Reckoner

/-- A line as it is read: bytes without the line feed. -/
abbrev RawLine := List UInt8

namespace RawLine

/-- The byte that ends a line. -/
def lineFeed : UInt8 := 10

/-- The byte that is dropped at the end of a line. -/
def carriageReturn : UInt8 := 13

/-- The lines of a byte stream. -/
def split : List UInt8 → List RawLine
  | [] => []
  | byte :: rest =>
    if byte = lineFeed then [] :: split rest
    else match split rest with
      | [] => [[byte]]
      | line :: more => (byte :: line) :: more

/-- The line without the carriage returns at its end. -/
def trimEnd (line : RawLine) : RawLine :=
  (line.reverse.dropWhile (· == carriageReturn)).reverse

/-- The text of a line, if its bytes are valid. -/
def text? (line : RawLine) : Option (List Char) :=
  (String.fromUTF8? (trimEnd line).toByteArray).map String.toList

end RawLine

/-- The bytes of a text. -/
def utf8 (s : List Char) : List UInt8 := s.flatMap String.utf8EncodeChar

end Reckoner
