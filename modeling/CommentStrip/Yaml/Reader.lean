import CommentStrip.Yaml.Node
import CommentStrip.Yaml.Scalar

/-! One document in a text. Blocks are told apart by their columns, flow collections by their
brackets; anchors, aliases and tags are not read. -/
namespace CommentStrip.Yaml
open Text

/- The colon behind a key stands on the line of the key; between brackets it may touch what
follows. -/
def colon? (flow : Bool) (start stop : Cursor) : Option Cursor :=
  let c := stop.skipSpaces
  if start.line ≠ stop.line then none
  else if c.atSign ':' || (flow && c.rest.head? == some ':') then some (c.pass 1) else none

mutual

def flowNode : (indent : Nat) → Nat → Cursor → Option (Node × Cursor)
  | _, 0, _ => none
  | indent, fuel + 1, c =>
    if c.atDocumentMark then none
    else match c.rest with
      | '[' :: _ => (flowItems indent fuel ((c.pass 1).skip true)).map fun (items, stop) =>
          (.sequence items, stop)
      | '\x7b' :: _ => (flowEntries indent fuel ((c.pass 1).skip true)).map fun (entries, stop) =>
          (.mapping entries, stop)
      | '\'' :: _ => (single (c.pass 1)).map fun (text, stop) => (.scalar text false, stop)
      | '"' :: _ => (double (c.pass 1)).map fun (text, stop) => (.scalar text false, stop)
      | rest =>
        if startsPlain true rest then
          (plain true indent c).map fun (text, stop) => (.scalar text true, stop)
        else none

def flowValue : (indent : Nat) → Nat → Cursor → Option (Node × Cursor)
  | _, 0, _ => none
  | indent, fuel + 1, c =>
    if c.rest.head?.any fun d => d == ',' || d == ']' || d == '\x7d' then some (.blank, c)
    else flowNode indent fuel c

/- A pair in a sequence is a mapping of its own. -/
def flowItems : (indent : Nat) → Nat → Cursor → Option (List Node × Cursor)
  | _, 0, _ => none
  | indent, fuel + 1, c =>
    if c.rest.head? = some ']' then some ([], c.pass 1)
    else do
      let (first, stop) ← flowNode indent fuel c
      let (item, stop) ← match colon? true c stop with
        | some value => do
          let (value, stop) ← flowValue indent fuel (value.skip true)
          some (.mapping [(first, value)], stop)
        | none => some (first, stop)
      let stop := stop.skip true
      match stop.rest.head? with
      | some ',' => do
        let (items, stop) ← flowItems indent fuel ((stop.pass 1).skip true)
        some (item :: items, stop)
      | some ']' => some ([item], stop.pass 1)
      | _ => none

def flowEntries : (indent : Nat) → Nat → Cursor → Option (List (Node × Node) × Cursor)
  | _, 0, _ => none
  | indent, fuel + 1, c =>
    if c.rest.head? = some '\x7d' then some ([], c.pass 1)
    else do
      let (key, stop) ←
        if c.rest.head? = some ':' then some (Node.blank, c) else flowNode indent fuel c
      let (value, stop) ← match colon? true c stop with
        | some value => flowValue indent fuel (value.skip true)
        | none => some (Node.blank, stop)
      let stop := stop.skip true
      match stop.rest.head? with
      | some ',' => do
        let (entries, stop) ← flowEntries indent fuel ((stop.pass 1).skip true)
        some ((key, value) :: entries, stop)
      | some '\x7d' => some ([(key, value)], stop.pass 1)
      | _ => none

end

def inlineNode (indent : Nat) (c : Cursor) : Option (Node × Cursor) :=
  match c.rest with
  | '[' :: _ | '\x7b' :: _ | '\'' :: _ | '"' :: _ => flowNode indent (2 * c.rest.length + 2) c
  | rest =>
    if c.atSign ':' then some (.blank, c)
    else if startsPlain false rest then
      (plain false indent c).map fun (text, stop) => (.scalar text true, stop)
    else none

mutual

/- A node whose text stands at column `indent` or further right. -/
def blockNode : Nat → Nat → Cursor → Option (Node × Cursor)
  | 0, _, _ => none
  | fuel + 1, indent, c =>
    if c.atEnd || decide (c.column < indent) || c.atDocumentMark then some (.blank, c)
    else if c.atSign '-' then
      if c.keyAllowed then
        (blockItems fuel c.column false c).map fun (items, stop) => (.sequence items, stop)
      else none
    else match c.rest with
      | '|' :: _ => (block false indent (c.pass 1)).map fun (text, stop) =>
          (.scalar text false, stop)
      | '>' :: _ => (block true indent (c.pass 1)).map fun (text, stop) =>
          (.scalar text false, stop)
      | _ => do
        let (node, stop) ← inlineNode indent c
        match colon? false c stop with
        | none => some (node, stop)
        | some _ =>
          if c.keyAllowed then
            (blockEntries fuel c.column c).map fun (entries, stop) => (.mapping entries, stop)
          else none

/- The items of a sequence at one column. A sequence may stand at the column of the mapping
that holds it; then a key at this column ends it. -/
def blockItems : Nat → Nat → Bool → Cursor → Option (List Node × Cursor)
  | 0, _, _, _ => none
  | fuel + 1, column, shared, c => do
    let (item, stop) ← blockNode fuel (column + 1)
      ({ c.pass 1 with keyAllowed := true }.skip false)
    let stop := stop.skip false
    if stop.atEnd || stop.atDocumentMark || decide (stop.column < column) then
      some ([item], stop)
    else if stop.column ≠ column ∨ stop.keyAllowed = false then none
    else if stop.atSign '-' then
      let (items, stop) ← blockItems fuel column shared stop
      some (item :: items, stop)
    else if shared then some ([item], stop)
    else none

def blockEntries : Nat → Nat → Cursor → Option (List (Node × Node) × Cursor)
  | 0, _, _ => none
  | fuel + 1, column, c => do
    let (key, stop) ← inlineNode (column + 1) c
    let value ← colon? false c stop
    let value := value.skip false
    let (value, stop) ←
      if value.keyAllowed && value.column == column && value.atSign '-' &&
          !value.atDocumentMark then
        (blockItems fuel column true value).map fun (items, stop) => (Node.sequence items, stop)
      else blockNode fuel (column + 1) value
    let stop := stop.skip false
    if stop.atEnd || stop.atDocumentMark || decide (stop.column < column) then
      some ([(key, value)], stop)
    else if stop.column ≠ column ∨ stop.keyAllowed = false then none
    else
      let (entries, stop) ← blockEntries fuel column stop
      some ((key, value) :: entries, stop)

end

def isDone (c : Cursor) : Bool :=
  c.atEnd || (c.atDocumentEnd && ((c.pass 3).skip false).atEnd)

def read (text : List Char) : Option Node := do
  let text ← printable? text
  let start := (Cursor.start text).skip false
  let content := if start.atDocumentStart then (start.pass 3).skip false else start
  let (node, stop) ← blockNode (2 * text.length + 2) 0 content
  if isDone (stop.skip false) then some node else none

end CommentStrip.Yaml
