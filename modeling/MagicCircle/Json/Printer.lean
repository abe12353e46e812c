import MagicCircle.Json.Value

/-!
# Writing JSON

Values are written without blanks.
-/

namespace MagicCircle.Json

def controlEscape (c : Char) : List Char :=
  ['\\', 'u', '0', '0', Nat.digitChar (c.toNat / 16), Nat.digitChar (c.toNat % 16)]

def escape (c : Char) : List Char :=
  if c = '"' then ['\\', '"']
  else if c = '\\' then ['\\', '\\']
  else if c = '\n' then ['\\', 'n']
  else if c = '\x0d' then ['\\', 'r']
  else if c = '\t' then ['\\', 't']
  else if c < ' ' then controlEscape c
  else [c]

def quote (s : String) : List Char := '"' :: (s.toList.flatMap escape ++ ['"'])

mutual

/-- A value as it is written. A string that is no text is written as `null`. -/
def print : Value → List Char
  | .null => ['n', 'u', 'l', 'l']
  | .bool true => ['t', 'r', 'u', 'e']
  | .bool false => ['f', 'a', 'l', 's', 'e']
  | .number n => n.chars
  | .string none => ['n', 'u', 'l', 'l']
  | .string (some s) => quote s
  | .array vs => '[' :: (printItems vs ++ [']'])
  | .object ms => '\x7b' :: (printMembers ms ++ ['\x7d'])

def printItems : List Value → List Char
  | [] => []
  | [v] => print v
  | v :: vs => print v ++ ',' :: printItems vs

def printMembers : List (Option String × Value) → List Char
  | [] => []
  | [(key, v)] => quote (key.getD "") ++ ':' :: print v
  | (key, v) :: ms => quote (key.getD "") ++ ':' :: print v ++ ',' :: printMembers ms

end

def Value.text (v : Value) : String := String.ofList (print v)

end MagicCircle.Json
