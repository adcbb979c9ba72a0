/-!
# Host names

Names come from reverse look-ups in the notation of zone files, which ends with a dot, and in any
case. They are compared without either.
-/

namespace OpenRelay.Hostname

/-- A name without its final dots, in small letters. Only ASCII letters have case here. -/
def normalize (name : String) : String :=
  String.ofList ((name.toList.reverse.dropWhile (· = '.')).reverse.map Char.toLower)

/-- The name that a reverse look-up finds: the first one that the answer holds. -/
def ofAnswer (names : List String) : Option String := names.head?.map normalize

end OpenRelay.Hostname
