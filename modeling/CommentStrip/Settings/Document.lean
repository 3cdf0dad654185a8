import CommentStrip.Settings.Basic
import CommentStrip.Yaml.Reader

/-! Settings in a YAML document. Unknown keys are passed over; a known key comes once. A node
without text is an empty collection or an unset value. -/
namespace CommentStrip
open Yaml (Node)

namespace Settings

def isNull (text : List Char) : Bool :=
  text.isEmpty || ["~", "null", "Null", "NULL"].contains (String.ofList text)

def bool? : Node → Option Bool
  | .scalar text true =>
    let word := String.ofList text
    if ["true", "True", "TRUE"].contains word then some true
    else if ["false", "False", "FALSE"].contains word then some false
    else none
  | _ => none

def digit? (base : Nat) (c : Char) : Option Nat := do
  let value ← Yaml.hexValue? c
  if value < base then some value else none

def digits? (base : Nat) (text : List Char) : Option Nat :=
  if text.isEmpty then none
  else text.foldl (fun value c => do some ((← value) * base + (← digit? base c))) (some 0)

/- Several digits of which the first is a zero are no decimal number. -/
def unsigned? : List Char → Option Nat
  | '0' :: 'x' :: rest => digits? 16 rest
  | '0' :: 'o' :: rest => digits? 8 rest
  | '0' :: 'b' :: rest => digits? 2 rest
  | '0' :: _ :: _ => none
  | text => digits? 10 text

def integer? : List Char → Option Int
  | '+' :: rest => (unsigned? rest).map Int.ofNat
  | '-' :: rest => (unsigned? rest).map fun n => -Int.ofNat n
  | text => (unsigned? text).map Int.ofNat

def signed64? : Node → Option Int
  | .scalar text true => do
    let value ← integer? text
    if Int64.minValue.toInt ≤ value ∧ value ≤ Int64.maxValue.toInt then some value else none
  | _ => none

/- A number in 64 bits; it has no minus sign, not even before a zero. -/
def unsigned64? : Node → Option Nat
  | .scalar text true => do
    if text.head? = some '-' then none
    let value ← integer? text
    if value < UInt64.size then some value.toNat else none
  | _ => none

def text? : Node → Option String
  | .scalar text _ => some (String.ofList text)
  | _ => none

def optional {α : Type} (read : Node → Option α) (node : Node) : Option (Option α) :=
  match node with
  | .scalar text true => if isNull text then some none else (read node).map some
  | _ => (read node).map some

def texts? : Node → Option (List String)
  | .sequence items => items.mapM text?
  | .scalar [] true => some []
  | _ => none

abbrev Fields := List (String × Node)

def fieldsOf? (known : List String) : List (Node × Node) → Option Fields
  | [] => some []
  | (key, value) :: rest => do
    let name ← text? key
    let later ← fieldsOf? known rest
    if known.contains name then
      if later.any (·.1 == name) then none else some ((name, value) :: later)
    else some later

/- A record is a mapping, or the values of its first fields in their order. -/
def record? (known : List String) : Node → Option Fields
  | .mapping entries => fieldsOf? known entries
  | .sequence items => if items.length ≤ known.length then some (known.zip items) else none
  | .scalar [] true => some []
  | .scalar _ _ => none

def field {α : Type} (fields : Fields) (name : String) (unset : α) (read : Node → Option α) :
    Option α :=
  match fields.lookup name with
  | some node => read node
  | none => some unset

def whitespace? (node : Node) : Option WhitespaceSettings := do
  let fields ← record? ["normalize", "collapse_blank_lines"] node
  let normalize ← field fields "normalize" none (optional bool?)
  let collapse ← field fields "collapse_blank_lines" none (optional signed64?)
  some ⟨normalize, collapse⟩

def php? (node : Node) : Option PhpSettings := do
  let fields ← record? ["enabled", "binary", "timeout_ms"] node
  let enabled ← field fields "enabled" none (optional bool?)
  let binary ← field fields "binary" none (optional text?)
  let timeout ← field fields "timeout_ms" none (optional unsigned64?)
  some ⟨enabled, binary, timeout⟩

def ofNode? (node : Node) : Option Settings := do
  let fields ← record?
    ["keep_directives", "excludes", "exclude_regexes", "whitespace", "php"] node
  let keep ← field fields "keep_directives" [] texts?
  let excludes ← field fields "excludes" [] texts?
  let excludeRegexes ← field fields "exclude_regexes" [] texts?
  let whitespace ← field fields "whitespace" ⟨none, none⟩ whitespace?
  let php ← field fields "php" ⟨none, none, none⟩ php?
  some ⟨keep, excludes, excludeRegexes, whitespace, php⟩

def ofDocument? (text : List Char) : Option Settings := do ofNode? (← Yaml.read text)

end Settings
end CommentStrip
