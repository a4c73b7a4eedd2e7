import QuantumLowering.Text.Shapeless
/-!
# Inspection text

Values are inspected on one line: records as `Name { field: value }`,
lists in brackets, sets in braces, strings in quotes with everything
escaped that could not be told apart on a screen.
-/


namespace QuantumLowering

namespace Text

/-- One character of a quoted string. -/
def quoteChar (c : Char) : List Char :=
  if c = '\x00' then ['\\', '0']
  else if c = '\t' then ['\\', 't']
  else if c = '\r' then ['\\', 'r']
  else if c = '\n' then ['\\', 'n']
  else if c = '\\' then ['\\', '\\']
  else if c = '"' then ['\\', '"']
  else if isShapeless c then
    ['\\', 'u', '\x7b'] ++ Nat.toDigits 16 c.toNat ++ ['\x7d']
  else [c]

/-- A string in quotes. -/
def quoted (s : String) : String :=
  String.ofList ('"' :: (s.toList.flatMap quoteChar ++ ['"']))

/-- A list in brackets. -/
def inBrackets (items : List String) : String := "[" ++ ", ".intercalate items ++ "]"

/-- A set in braces. -/
def inBraces (items : List String) : String := "\x7b" ++ ", ".intercalate items ++ "\x7d"

/-- A tuple in parentheses. -/
def inParens (items : List String) : String := "(" ++ ", ".intercalate items ++ ")"

/-- A record with its fields. -/
def record (name : String) (fields : List (String × String)) : String :=
  name ++ " \x7b " ++ ", ".intercalate (fields.map fun f => f.1 ++ ": " ++ f.2) ++ " \x7d"

/-- A value that may be absent. -/
def optional (render : α → String) : Option α → String
  | some a => "Some(" ++ render a ++ ")"
  | none => "None"

/-- A truth value. -/
def truth (b : Bool) : String := if b then "true" else "false"

end Text

end QuantumLowering
