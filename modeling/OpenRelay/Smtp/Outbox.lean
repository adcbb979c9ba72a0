import OpenRelay.Text.Utf8

/-!
# Lines to a connection

A line goes out in UTF-8, and a carriage return and a line feed end it. A line that holds neither
is therefore read as the one line that it is.
-/

namespace OpenRelay

/-- The bytes that end a line. -/
def lineEnd : List UInt8 := [0x0D, 0x0A]

/-- The bytes of a line as it is sent. -/
def lineBytes (line : String) : List UInt8 := Text.Utf8.encode line.toList ++ lineEnd

end OpenRelay
