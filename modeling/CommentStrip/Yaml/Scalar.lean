import CommentStrip.Yaml.Cursor

/-! The four ways to write a scalar: plain, in single or in double quotes, and as a block. Each
reader gives the text and the place behind it. -/
namespace CommentStrip.Yaml
open Text

def isFlowSign (c : Char) : Bool := ",[]\x7b\x7d".toList.contains c

def isIndicator (c : Char) : Bool := "-?:,[]\x7b\x7d#&*!|>'\"%@\x60".toList.contains c

def startsPlain (flow : Bool) (rest : List Char) : Bool :=
  match rest with
  | [] => false
  | c :: more =>
    if isIndicator c then
      (c == '-' && !more.head?.any isSpace) || (!flow && (c == '?' || c == ':') && !atGap more)
    else !isSpace c && c != '\n'

/- The characters up to white space or a sign that ends a plain scalar. Between brackets no
colon may touch a sign. -/
def plainRun (flow : Bool) : List Char → Option (List Char)
  | [] => some []
  | c :: rest =>
    if isSpace c || c == '\n' then some []
    else if flow && c == ':' && rest.head?.any fun d => isFlowSign d || d == '?' then none
    else if (c == ':' && atGap rest) || (flow && isFlowSign c) then some []
    else (plainRun flow rest).map (c :: ·)

def endsPlain (flow : Bool) (indent : Nat) (g : Gap) : Bool :=
  g.stop.atEnd || g.stop.rest.head? == some '#' || g.stop.atDocumentMark ||
    (!flow && decide (0 < g.breaks) && decide (g.stop.column < indent))

def plainFrom (flow : Bool) (indent : Nat) : Nat → Cursor → Option (List Char × Cursor)
  | 0, _ => none
  | fuel + 1, c => do
    let run ← plainRun flow c.rest
    let here := c.pass run.length
    let gap := here.gap indent
    if gap.tabbed then none
    else if endsPlain flow indent gap || (gap.spaces.isEmpty && gap.breaks == 0) then
      some (run, here)
    else
      let (later, stop) ← plainFrom flow indent fuel gap.stop
      some (if later.isEmpty then (run, here) else (run ++ gap.text ++ later, stop))

def plain (flow : Bool) (indent : Nat) (c : Cursor) : Option (List Char × Cursor) :=
  plainFrom flow indent (c.rest.length + 1) c

def singleFrom : Nat → Cursor → Option (List Char × Cursor)
  | 0, _ => none
  | fuel + 1, c =>
    if c.atDocumentMark then none
    else match c.rest with
      | [] => none
      | '\'' :: '\'' :: _ =>
        (singleFrom fuel (c.pass 2)).map fun (text, stop) => ('\'' :: text, stop)
      | '\'' :: _ => some ([], c.pass 1)
      | d :: _ =>
        if isSpace d || d == '\n' then
          let gap := c.gap 0
          (singleFrom fuel gap.stop).map fun (text, stop) => (gap.text ++ text, stop)
        else (singleFrom fuel (c.pass 1)).map fun (text, stop) => (d :: text, stop)

def single (c : Cursor) : Option (List Char × Cursor) := singleFrom (c.rest.length + 1) c

def hexValue? (c : Char) : Option Nat :=
  if '0' ≤ c ∧ c ≤ '9' then some (c.toNat - 48)
  else if 'a' ≤ c ∧ c ≤ 'f' then some (c.toNat - 87)
  else if 'A' ≤ c ∧ c ≤ 'F' then some (c.toNat - 55)
  else none

def hexNumber? (digits : List Char) : Option Nat :=
  digits.foldl (fun value c => do some ((← value) * 16 + (← hexValue? c))) (some 0)

def numbered? (width : Nat) (rest : List Char) : Option (Char × Nat) := do
  if rest.length < width then none
  else
    let value ← hexNumber? (rest.take width)
    if h : value.isValidChar then some (Char.ofNatAux value h, width) else none

def escape? : List Char → Option (Char × Nat)
  | '0' :: _ => some ('\x00', 1)
  | 'a' :: _ => some ('\x07', 1)
  | 'b' :: _ => some ('\x08', 1)
  | 't' :: _ => some ('\t', 1)
  | '\t' :: _ => some ('\t', 1)
  | 'n' :: _ => some ('\n', 1)
  | 'v' :: _ => some ('\x0b', 1)
  | 'f' :: _ => some ('\x0c', 1)
  | 'r' :: _ => some ('\r', 1)
  | 'e' :: _ => some ('\x1b', 1)
  | ' ' :: _ => some (' ', 1)
  | '"' :: _ => some ('"', 1)
  | '/' :: _ => some ('/', 1)
  | '\\' :: _ => some ('\\', 1)
  | 'N' :: _ => some ('\u0085', 1)
  | '_' :: _ => some ('\u00A0', 1)
  | 'L' :: _ => some ('\u2028', 1)
  | 'P' :: _ => some ('\u2029', 1)
  | 'x' :: rest => (numbered? 2 rest).map fun (c, width) => (c, width + 1)
  | 'u' :: rest => (numbered? 4 rest).map fun (c, width) => (c, width + 1)
  | 'U' :: rest => (numbered? 8 rest).map fun (c, width) => (c, width + 1)
  | _ => none

def doubleFrom : Nat → Cursor → Option (List Char × Cursor)
  | 0, _ => none
  | fuel + 1, c =>
    if c.atDocumentMark then none
    else match c.rest with
      | [] => none
      | '"' :: _ => some ([], c.pass 1)
      | '\\' :: '\n' :: _ =>
        let gap := (c.pass 1).gap 0
        (doubleFrom fuel gap.stop).map fun (text, stop) =>
          (List.replicate (gap.breaks - 1) '\n' ++ text, stop)
      | '\\' :: rest => do
        let (character, width) ← escape? rest
        let (text, stop) ← doubleFrom fuel (c.pass (width + 1))
        some (character :: text, stop)
      | d :: _ =>
        if isSpace d || d == '\n' then
          let gap := c.gap 0
          (doubleFrom fuel gap.stop).map fun (text, stop) => (gap.text ++ text, stop)
        else (doubleFrom fuel (c.pass 1)).map fun (text, stop) => (d :: text, stop)

def double (c : Cursor) : Option (List Char × Cursor) := doubleFrom (c.rest.length + 1) c

inductive Chomp where
  | strip
  | clip
  | keep
  deriving DecidableEq, Repr

structure BlockHeader where
  chomp : Chomp
  /-- The indentation in spaces beyond that of the parent, if it is given. -/
  extra : Option Nat
  width : Nat
  deriving DecidableEq, Repr

def chomp? : Char → Option Chomp
  | '-' => some .strip
  | '+' => some .keep
  | _ => none

def extra? (c : Char) : Option Nat :=
  if '1' ≤ c ∧ c ≤ '9' then some (c.toNat - 48) else none

def blockHeader (rest : List Char) : BlockHeader :=
  let first := rest.head?
  let second := rest.tail.head?
  match first.bind chomp?, first.bind extra? with
  | some chomp, _ => match second.bind extra? with
    | some extra => ⟨chomp, some extra, 2⟩
    | none => ⟨chomp, none, 1⟩
  | none, some extra => match second.bind chomp? with
    | some chomp => ⟨chomp, some extra, 2⟩
    | none => ⟨.clip, some extra, 1⟩
  | none, none => ⟨.clip, none, 0⟩

structure Leading where
  breaks : Nat
  /-- The greatest number of spaces in any of them or before the next line. -/
  widest : Nat
  stop : Cursor
  deriving DecidableEq, Repr

/- With `indent` none, all spaces count as indentation; a tab among them is refused. -/
def leadingFrom (indent : Option Nat) (breaks widest line column : Nat) :
    List Char → Option Leading
  | [] => some ⟨breaks, max widest column, ⟨[], line, column, true⟩⟩
  | c :: rest =>
    let inside := indent.all fun n => decide (column < n)
    if c = ' ' ∧ inside = true then leadingFrom indent breaks widest line (column + 1) rest
    else if c = '\t' ∧ inside = true then none
    else if c = '\n' then leadingFrom indent (breaks + 1) (max widest column) (line + 1) 0 rest
    else some ⟨breaks, max widest column, ⟨c :: rest, line, column, true⟩⟩

def Cursor.leading (indent : Option Nat) (c : Cursor) : Option Leading :=
  leadingFrom indent 0 0 c.line c.column c.rest

def blockLines (indent : Nat) : Nat → Cursor → Option (List (List Char × Nat) × Cursor)
  | 0, _ => none
  | fuel + 1, c =>
    if c.column ≠ indent ∨ c.atEnd = true then some ([], c)
    else do
      let text := c.rest.takeWhile (· != '\n')
      let behind := c.rest.drop text.length
      match behind with
      | [] => some ([(text, 0)], ⟨[], c.line, c.column + text.length, true⟩)
      | _ :: rest =>
        let leading ← leadingFrom (some indent) 0 0 (c.line + 1) 0 rest
        let (later, stop) ← blockLines indent fuel leading.stop
        some ((text, leading.breaks + 1) :: later, stop)

def startsBlank (text : List Char) : Bool := text.head?.any isSpace

def between (fold : Bool) (line next : List Char) (breaks : Nat) : List Char :=
  if fold && !startsBlank line && !startsBlank next then folded breaks
  else List.replicate breaks '\n'

def ending (chomp : Chomp) (breaks : Nat) : List Char :=
  match chomp with
  | .strip => []
  | .clip => List.replicate (min breaks 1) '\n'
  | .keep => List.replicate breaks '\n'

def blockText (fold : Bool) (chomp : Chomp) : List (List Char × Nat) → List Char
  | [] => []
  | [(line, breaks)] => line ++ ending chomp breaks
  | (line, breaks) :: (next, more) :: rest =>
    line ++ between fold line next breaks ++ blockText fold chomp ((next, more) :: rest)

def block (fold : Bool) (indent : Nat) (c : Cursor) : Option (List Char × Cursor) := do
  let header := blockHeader c.rest
  let afterHeader := (c.pass header.width).skipSpaces
  let comment := if afterHeader.rest.head? = some '#' then
    (afterHeader.rest.takeWhile (· != '\n')).length else 0
  let lineEnd := afterHeader.pass comment
  let body : Cursor ← match lineEnd.rest with
    | [] => some ⟨[], lineEnd.line, lineEnd.column, true⟩
    | d :: rest => if d = '\n' then some ⟨rest, lineEnd.line + 1, 0, true⟩ else none
  let column : Option Nat := header.extra.map fun extra => extra + (indent - 1)
  let first ← body.leading column
  let column := column.getD (max first.widest (max indent 1))
  let (lines, stop) ← blockLines column (c.rest.length + 1) first.stop
  let opening := List.replicate first.breaks '\n'
  some (if lines.isEmpty then
      (if header.chomp = .keep then opening else [], stop)
    else (opening ++ blockText fold header.chomp lines, stop))

end CommentStrip.Yaml
