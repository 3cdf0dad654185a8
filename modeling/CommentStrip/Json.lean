import CommentStrip.Text.Basic

/-! JSON as it is written, on one line or with an indentation of two spaces. -/
namespace CommentStrip.Json

inductive Value where
  | number (n : Nat)
  | text (s : List Char)
  | array (items : List Value)
  | object (fields : List (String × Value))

def hexDigit (n : Nat) : Char := "0123456789abcdef".toList.getD n '0'

def escaped (c : Char) : List Char :=
  if c = '"' then ['\\', '"']
  else if c = '\\' then ['\\', '\\']
  else if c = '\n' then ['\\', 'n']
  else if c = '\r' then ['\\', 'r']
  else if c = '\t' then ['\\', 't']
  else if c = '\x08' then ['\\', 'b']
  else if c = '\x0c' then ['\\', 'f']
  else if c.toNat < 32 then
    ['\\', 'u', '0', '0', hexDigit (c.toNat / 16), hexDigit (c.toNat % 16)]
  else [c]

def quoted (s : List Char) : String := String.ofList ('"' :: s.flatMap escaped ++ ['"'])

def separated (parts : List String) : String := String.intercalate "," parts

mutual

def compact : Value → String
  | .number n => toString n
  | .text s => quoted s
  | .array items => "[" ++ separated (compactItems items) ++ "]"
  | .object fields => "\x7b" ++ separated (compactFields fields) ++ "\x7d"

def compactItems : List Value → List String
  | [] => []
  | item :: rest => compact item :: compactItems rest

def compactFields : List (String × Value) → List String
  | [] => []
  | (name, value) :: rest => (quoted name.toList ++ ":" ++ compact value) :: compactFields rest

end

def newline (depth : Nat) : String := "\n" ++ String.ofList (List.replicate (2 * depth) ' ')

def enclosed (opening closing : String) (depth : Nat) (parts : List String) : String :=
  if parts.isEmpty then opening ++ closing
  else opening ++ separated (parts.map (newline (depth + 1) ++ ·)) ++ newline depth ++ closing

mutual

def pretty (depth : Nat) : Value → String
  | .number n => toString n
  | .text s => quoted s
  | .array items => enclosed "[" "]" depth (prettyItems (depth + 1) items)
  | .object fields => enclosed "\x7b" "\x7d" depth (prettyFields (depth + 1) fields)

def prettyItems (depth : Nat) : List Value → List String
  | [] => []
  | item :: rest => pretty depth item :: prettyItems depth rest

def prettyFields (depth : Nat) : List (String × Value) → List String
  | [] => []
  | (name, value) :: rest =>
    (quoted name.toList ++ ": " ++ pretty depth value) :: prettyFields depth rest

end

end CommentStrip.Json
