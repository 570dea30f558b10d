/-!
# Quoted labels of graph drawings

Inside a quoted label of the DOT language a backslash and a double quote are escaped by a backslash,
and so are the characters that divide record labels. A line feed becomes the escape that starts a new
line of the label, and a carriage return is dropped.
-/

namespace GuardedFlow.Text

/-- The characters that are preceded by a backslash in a label. -/
def isLabelSpecial (c : Char) : Bool :=
  c == '\\' || c == '"' || c == '<' || c == '>' || c == '\x7b' || c == '\x7d' || c == '|'

/-- What stands for one character in a label. -/
def labelChar (c : Char) : List Char :=
  if c = '\n' then ['\\', 'n']
  else if c = '\r' then []
  else if isLabelSpecial c then ['\\', c]
  else [c]

/-- The form of a string inside a quoted label. -/
def label (s : String) : String :=
  String.ofList (s.toList.flatMap labelChar)

end GuardedFlow.Text
