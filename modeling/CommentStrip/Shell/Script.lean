import CommentStrip.Text.Basic

/-! Scripts of simple commands. A script is read as a whole before any of it runs. -/
namespace CommentStrip.Shell
open Text

inductive Piece where
  | literal (text : List Char)
  | parameter (name : Char) (quoted : Bool)
  deriving DecidableEq, Repr

abbrev Word := List Piece

inductive Stream where
  | output
  | errors
  deriving DecidableEq, Repr

inductive Target where
  | stream (stream : Stream)
  | nowhere
  deriving DecidableEq, Repr

structure Redirection where
  stream : Stream
  target : Target
  deriving DecidableEq, Repr

structure Command where
  line : Nat
  words : List Word
  redirections : List Redirection
  deriving DecidableEq, Repr

inductive Link where
  | always
  | afterSuccess
  | afterFailure
  deriving DecidableEq, Repr

structure Pipeline where
  link : Link
  commands : List Command
  deriving DecidableEq, Repr

inductive Token where
  | word (line : Nat) (word : Word)
  | redirect (stream : Stream) (toStream : Bool)
  | pipe
  | link (link : Link)
  deriving DecidableEq, Repr

def isParameter (c : Char) : Bool := c.isDigit || "#?$@*".toList.contains c

def parameter? : List Char → Option (Char × Nat)
  | '{' :: c :: '}' :: _ => if isParameter c then some (c, 3) else none
  | c :: _ => if isParameter c then some (c, 1) else none
  | [] => none

def endsWord (c : Char) : Bool := " \t\n;|&<>()".toList.contains c

def readDouble : List Char → Option (Word × List Char)
  | [] => none
  | '"' :: rest => some ([], rest)
  | '\\' :: c :: rest => (readDouble rest).map fun (pieces, later) =>
      (.literal (if "$\x60\"\\".toList.contains c then [c] else ['\\', c]) :: pieces, later)
  | c :: rest =>
    match if c = '$' then parameter? rest else none with
    | some (name, width) => (readDouble (rest.drop width)).map fun (pieces, later) =>
        (.parameter name true :: pieces, later)
    | none => (readDouble rest).map fun (pieces, later) => (.literal [c] :: pieces, later)
termination_by text => text.length
decreasing_by all_goals (simp only [List.length_cons, List.length_drop]; omega)

def readWord : Nat → List Char → Option (Word × List Char)
  | 0, _ => none
  | _ + 1, [] => some ([], [])
  | fuel + 1, c :: rest =>
    let more (piece : Word) (behind : List Char) : Option (Word × List Char) :=
      (readWord fuel behind).map fun (pieces, later) => (piece ++ pieces, later)
    if endsWord c then some ([], c :: rest)
    else if c = '\'' then
      let text := rest.takeWhile (· != '\'')
      if text.length = rest.length then none
      else more [.literal text] (rest.drop (text.length + 1))
    else if c = '"' then do
      let (inside, behind) ← readDouble rest
      more (.literal [] :: inside) behind
    else match c, rest with
      | '\\', d :: behind => more (if d = '\n' then [] else [.literal [d]]) behind
      | '$', _ =>
        match parameter? rest with
        | some (name, width) => more [.parameter name false] (rest.drop width)
        | none => more [.literal ['$']] rest
      | _, _ => more [.literal [c]] rest

def tokens : Nat → Nat → List Char → Option (List Token)
  | 0, _, _ => none
  | fuel + 1, line, text =>
    let next (token : Token) (rest : List Char) := (tokens fuel line rest).map (token :: ·)
    match text with
    | [] => some []
    | '\n' :: rest => (tokens fuel (line + 1) rest).map (.link .always :: ·)
    | '#' :: rest => tokens fuel line (rest.dropWhile (· != '\n'))
    | '&' :: '&' :: rest => next (.link .afterSuccess) rest
    | '|' :: '|' :: rest => next (.link .afterFailure) rest
    | '|' :: rest => next .pipe rest
    | ';' :: rest | '&' :: rest => next (.link .always) rest
    | '>' :: '&' :: rest => next (.redirect .output true) rest
    | '>' :: '>' :: rest | '>' :: rest => next (.redirect .output false) rest
    | '1' :: '>' :: '&' :: rest => next (.redirect .output true) rest
    | '2' :: '>' :: '&' :: rest => next (.redirect .errors true) rest
    | '1' :: '>' :: rest => next (.redirect .output false) rest
    | '2' :: '>' :: rest => next (.redirect .errors false) rest
    | c :: rest =>
      if c = ' ' ∨ c = '\t' then tokens fuel line rest
      else if c = '<' ∨ c = '(' ∨ c = ')' then none
      else do
        let (word, behind) ← readWord (c :: rest).length.succ (c :: rest)
        next (.word line word) behind

def targetOf (toStream : Bool) (word : Word) : Target :=
  if toStream then .stream (if word = [.literal ['2']] then .errors else .output) else .nowhere

def Command.empty : Command := ⟨0, [], []⟩

def readPipeline (command : Command) : List Token → List Command × List Token
  | .word line word :: rest =>
    readPipeline ⟨if command.words.isEmpty then line else command.line, command.words ++ [word],
      command.redirections⟩ rest
  | .redirect stream toStream :: .word _ word :: rest =>
    readPipeline { command with
      redirections := command.redirections ++ [⟨stream, targetOf toStream word⟩] } rest
  | .pipe :: rest =>
    let (later, behind) := readPipeline .empty rest
    (command :: later, behind)
  | rest => ([command], rest)

def pipelines : Nat → Link → List Token → List Pipeline
  | 0, _, _ => []
  | _ + 1, _, [] => []
  | fuel + 1, _, .link next :: rest => pipelines fuel next rest
  | fuel + 1, link, tokens =>
    let (commands, rest) := readPipeline .empty tokens
    ⟨link, commands⟩ :: pipelines fuel .always rest

def read (script : List Char) : Option (List Pipeline) := do
  let tokens ← tokens (script.length + 1) 1 script
  some (pipelines (tokens.length + 1) .always tokens)

end CommentStrip.Shell
