/-!
# Records as text

A value is shown for inspection as the name of its type and its fields in order, in one
line.
-/

namespace RingRead

/-- A record in one line: its name, then each field with its value. The braces are part of
the text. -/
def inspectRecord (name : String) (fields : List (String × String)) : String :=
  name ++ " \x7b " ++ ", ".intercalate (fields.map fun (field, value) => field ++ ": " ++ value)
    ++ " \x7d"

end RingRead
