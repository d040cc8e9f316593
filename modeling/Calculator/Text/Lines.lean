/-
# Lines of bytes

Listings and records arrive as bytes that need not be text.  `lines` cuts them at line feeds and
`decode?` reads one piece as UTF-8, so that a piece which is no text is found where it stands.
-/
namespace Calculator.Text

/-- The line feed byte. -/
def lineFeed : UInt8 := 10

/-- The lines of a file: the pieces between line feeds.  A final line feed ends the last line and
begins no further one. -/
def lines (bytes : List UInt8) : List (List UInt8) :=
  let pieces := bytes.splitOn lineFeed
  if pieces.getLast? = some [] then pieces.dropLast else pieces

/-- The characters that the bytes encode, if they are valid UTF-8. -/
def decode? (bytes : List UInt8) : Option (List Char) :=
  (String.fromUTF8? bytes.toByteArray).map String.toList

end Calculator.Text
