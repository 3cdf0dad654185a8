import CommentStrip.FileTree
import CommentStrip.Shell.Script
import CommentStrip.Shell.Tools

/-! Scripts at work, and the interpreters that a file tree has to offer. -/
namespace CommentStrip.Shell
open Text

structure State where
  name : List Char
  arguments : List (List Char)
  input : Bytes
  output : Bytes
  errors : Bytes
  status : Nat
  milliseconds : Nat
  ending : Option Php.Exit

def parameter (st : State) (c : Char) : List Char :=
  if c = '0' then st.name
  else if c.isDigit then (st.arguments[c.toNat - 49]?).getD []
  else if c = '#' then (toString st.arguments.length).toList
  else if c = '?' then (toString st.status).toList
  else if c = '$' then ownNumber
  else joined st.arguments

/- Words on their way: those that are complete, latest first, and the one that is open. -/
structure Fields where
  closed : List (List Char)
  opened : Option (List Char)

namespace Fields

def extend (f : Fields) (text : List Char) : Fields :=
  { f with opened := some (f.opened.getD [] ++ text) }

def close (f : Fields) : Fields := ⟨f.opened.toList ++ f.closed, none⟩

def isSeparator (c : Char) : Bool := c == ' ' || c == '\t' || c == '\n'

def split (f : Fields) (value : List Char) : Fields :=
  value.foldl (fun f c => if isSeparator c then f.close else f.extend [c]) f

def spread (f : Fields) : List (List Char) → Fields
  | [] => f
  | first :: rest => rest.foldl (fun f argument => f.close.extend argument) (f.extend first)

def add (st : State) (f : Fields) : Piece → Fields
  | .literal text => f.extend text
  | .parameter '@' true => f.spread st.arguments
  | .parameter c true => f.extend (parameter st c)
  | .parameter c false => f.split (parameter st c)

end Fields

/- A word that was not quoted and turns out empty is no argument. -/
def expand (st : State) (word : Word) : List (List Char) :=
  (word.foldl (Fields.add st) ⟨[], none⟩).close.closed.reverse

def expandAll (st : State) (words : List Word) : List (List Char) := words.flatMap (expand st)

def routes (redirections : List Redirection) : Target × Target :=
  redirections.foldl (fun (output, errors) r =>
    let target := match r.target with
      | .stream .output => output
      | .stream .errors => errors
      | .nowhere => .nowhere
    match r.stream with
    | .output => (target, errors)
    | .errors => (output, target)) (.stream .output, .stream .errors)

def sentTo (stream : Stream) (target : Target) (bytes : Bytes) : Bytes :=
  if target = .stream stream then bytes else []

def redirected (redirections : List Redirection) (e : Effect) : Effect :=
  let (output, errors) := routes redirections
  { e with
    output := sentTo .output output e.output ++ sentTo .output errors e.errors
    errors := sentTo .errors output e.output ++ sentTo .errors errors e.errors }

def place (st : State) (command : Command) : String :=
  String.ofList st.name ++ ": " ++ toString command.line

def runCommand (st : State) (input : Bytes) (command : Command) : Effect :=
  let words := expandAll st command.words
  let effect := match words with
    | ['e', 'x', 'e', 'c'] :: called :: arguments =>
      let e := tool (place st command) st.status input (called :: arguments)
      { e with ending := some (e.ending.getD (.status e.status)) }
    | words => tool (place st command) st.status input words
  redirected command.redirections effect

/- Commands joined by pipes run in shells of their own, so that an exit ends only one of them. -/
def runPiped (st : State) (input : Bytes) : List Command → Effect
  | [] => .quiet input 0
  | [command] => { runCommand st input command with ending := none }
  | command :: rest =>
    let e := runCommand st input command
    let later := runPiped st e.output rest
    ⟨later.output, e.errors ++ later.errors, e.unread, later.status,
      max e.milliseconds later.milliseconds, none⟩

def runPipeline (st : State) (commands : List Command) : Effect :=
  match commands with
  | [command] => runCommand st st.input command
  | _ => runPiped st st.input commands

def State.after (st : State) (e : Effect) : State :=
  { st with
    input := e.unread
    output := st.output ++ e.output
    errors := st.errors ++ e.errors
    status := e.status
    milliseconds := st.milliseconds + e.milliseconds
    ending := e.ending }

def Link.admits : Link → Nat → Bool
  | .always, _ => true
  | .afterSuccess, status => status == 0
  | .afterFailure, status => status != 0

def runAll (st : State) : List Pipeline → State
  | [] => st
  | p :: rest =>
    if st.ending.isSome then st
    else if p.link.admits st.status then runAll (st.after (runPipeline st p.commands)) rest
    else runAll st rest

def run (name script : List Char) (arguments : List (List Char)) (input : Bytes) : Php.Finished :=
  match read script with
  | none =>
    ⟨.status 2, [], Utf8.encode (name ++ ": Syntax error\n".toList), 0⟩
  | some pipelines =>
    let st := runAll ⟨name, arguments, input, [], [], 0, 0, none⟩ pipelines
    ⟨st.ending.getD (.status st.status), st.output, st.errors, st.milliseconds⟩

def isShellLine (line : List Char) : Bool :=
  startsWith ['#', '!'] line && ['s', 'h'].isSuffixOf (trim line)

def isBlocked (root : FileTree) (path : List Char) : Bool :=
  (List.range path.length).any fun n =>
    path[n]? == some '/' && ((root.find? (path.take n)).bind FileTree.content?).isSome

/- A name without a slash would be looked up among the commands of the system; there are
none. -/
def interpreter (root : FileTree) (binary : List Char) : Php.Interpreter :=
  if !binary.contains '/' then .missing
  else match root.find? binary with
    | some (.file content true) =>
      let script := Utf8.decodeLossy content
      let line := (lines script).headD []
      if isShellLine line then .command (run binary script)
      else if startsWith ['#', '!'] line then .missing
      else .unusable
    | some _ => .unusable
    | none => if isBlocked root binary then .unusable else .missing

end CommentStrip.Shell
