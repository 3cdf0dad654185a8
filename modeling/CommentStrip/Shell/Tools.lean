import CommentStrip.Pattern.Reader
import CommentStrip.Pattern.Occurrence
import CommentStrip.Php.Interpreter

/-! The tools that scripts call. A tool sees its arguments and the input that is left, and says
what it writes and how it ends. -/
namespace CommentStrip.Shell
open Text

abbrev Bytes := List UInt8

structure Effect where
  output : Bytes
  errors : Bytes
  /-- The input that is left for later tools. -/
  unread : Bytes
  status : Nat
  milliseconds : Nat
  /-- Set when the whole script ends here. -/
  ending : Option Php.Exit
  deriving DecidableEq, Repr

namespace Effect

def quiet (input : Bytes) (status : Nat) : Effect := ⟨[], [], input, status, 0, none⟩

def writes (input output : Bytes) : Effect := ⟨output, [], input, 0, 0, none⟩

def turns (output : Bytes) : Effect := writes [] output

def fails (input : Bytes) (status : Nat) (message : String) : Effect :=
  ⟨[], Utf8.encode (message ++ "\n").toList, input, status, 0, none⟩

end Effect

def byte (c : Char) : UInt8 := UInt8.ofNat c.toNat

def octalDigit? (c : Char) : Option Nat :=
  if '0' ≤ c ∧ c ≤ '7' then some (c.toNat - 48) else none

def octal : (most : Nat) → (value : Nat) → List Char → Nat × Nat
  | most + 1, value, c :: rest =>
    match octalDigit? c with
    | some digit =>
      let (value, width) := octal most (value * 8 + digit) rest
      (value, width + 1)
    | none => (value, 0)
  | _, value, _ => (value, 0)

def letterEscape? : Char → Option UInt8
  | 'n' => some 10
  | 't' => some 9
  | 'r' => some 13
  | 'a' => some 7
  | 'b' => some 8
  | 'f' => some 12
  | 'v' => some 11
  | '\\' => some 92
  | _ => none

def escape? (rest : List Char) : Option (UInt8 × Nat) :=
  match rest with
  | [] => none
  | c :: _ =>
    match letterEscape? c with
    | some b => some (b, 1)
    | none =>
      let (value, width) := octal 3 0 rest
      if width = 0 then none else some (UInt8.ofNat value, width)

def unescaped : Nat → List Char → Bytes
  | 0, _ => []
  | _ + 1, [] => []
  | fuel + 1, c :: rest =>
    match c, escape? rest with
    | '\\', some (b, width) => b :: unescaped fuel (rest.drop width)
    | _, _ => Utf8.encode [c] ++ unescaped fuel rest

def bytesOf (text : List Char) : Bytes := unescaped (text.length + 1) text

def formatted : Nat → List Char → List (List Char) → Bytes × List (List Char)
  | 0, _, arguments => ([], arguments)
  | _ + 1, [], arguments => ([], arguments)
  | fuel + 1, c :: rest, arguments =>
    let next (bytes : Bytes) (rest : List Char) (arguments : List (List Char)) :=
      let (later, left) := formatted fuel rest arguments
      (bytes ++ later, left)
    match c, rest with
    | '%', '%' :: rest => next [byte '%'] rest arguments
    | '%', 's' :: rest => next (Utf8.encode (arguments.headD [])) rest arguments.tail
    | '%', 'd' :: rest => next (Utf8.encode (arguments.headD ['0'])) rest arguments.tail
    | '%', 'b' :: rest => next (bytesOf (arguments.headD [])) rest arguments.tail
    | '%', 'c' :: rest => next (Utf8.encode ((arguments.headD []).take 1)) rest arguments.tail
    | '\\', _ =>
      match escape? rest with
      | some (b, width) => next [b] (rest.drop width) arguments
      | none => next [byte c] rest arguments
    | _, _ => next (Utf8.encode [c]) rest arguments

/- The format is used again as long as arguments are left and it takes any. -/
def printed (format : List Char) : Nat → List (List Char) → Bytes
  | 0, _ => []
  | fuel + 1, arguments =>
    let (bytes, left) := formatted (format.length + 1) format arguments
    if left.isEmpty ∨ left.length = arguments.length then bytes
    else bytes ++ printed format fuel left

def joined (arguments : List (List Char)) : List Char := joinWith [' '] arguments

def echo (input : Bytes) : List (List Char) → Effect
  | ['-', 'n'] :: rest => .writes input (bytesOf (joined rest))
  | arguments => .writes input (bytesOf (joined arguments) ++ [10])

def byteSet : Nat → Bytes → Bytes
  | 0, _ => []
  | fuel + 1, low :: 45 :: high :: rest =>
    (List.range (high.toNat + 1 - low.toNat)).map (fun i => low + UInt8.ofNat i) ++
      byteSet fuel rest
  | fuel + 1, b :: rest => b :: byteSet fuel rest
  | _ + 1, [] => []

def setOf (text : List Char) : Bytes :=
  let bytes := bytesOf text
  byteSet (bytes.length + 1) bytes

/- Bytes behind the end of the second set stand for its last. -/
def exchanged (source target : Bytes) (b : UInt8) : UInt8 :=
  match source.idxOf? b with
  | some place => target.getD place (target.getLastD b)
  | none => b

def exchange (input : Bytes) : List (List Char) → Effect
  | [['-', 'd'], set] => .turns (input.filter fun b => !(setOf set).contains b)
  | [source, target] => .turns (input.map (exchanged (setOf source) (setOf target)))
  | _ => .fails input 1 "tr: missing operand"

def byteLines : Bytes → List Bytes
  | [] => []
  | b :: rest =>
    if b = 10 then [b] :: byteLines rest
    else match byteLines rest with
      | [] => [[b]]
      | line :: later => (b :: line) :: later

/- In the expressions of the line editor these signs are special only behind a backslash. -/
def isBasicPlain (c : Char) : Bool := "+?()|\x7b\x7d".toList.contains c

def fromBasic : List Char → List Char
  | [] => []
  | '\\' :: c :: rest =>
    if isBasicPlain c then c :: fromBasic rest else '\\' :: c :: fromBasic rest
  | c :: rest => if isBasicPlain c then '\\' :: c :: fromBasic rest else c :: fromBasic rest

structure Substitution where
  pattern : Pattern
  replacement : List Char
  everywhere : Bool

def delimited (mark : Char) : List Char → Option (List Char × List Char)
  | [] => none
  | '\\' :: c :: rest => (delimited mark rest).map fun (part, later) =>
      ((if c = mark then [c] else ['\\', c]) ++ part, later)
  | c :: rest =>
    if c = mark then some ([], rest)
    else (delimited mark rest).map fun (part, later) => (c :: part, later)

def substitution? : List Char → Option Substitution
  | 's' :: mark :: rest => do
    let (source, rest) ← delimited mark rest
    let (replacement, flags) ← delimited mark rest
    let pattern ← (Pattern.read (fromBasic source)).toOption
    if flags = [] then some ⟨pattern, replacement, false⟩
    else if flags = ['g'] then some ⟨pattern, replacement, true⟩
    else none
  | _ => none

def longestFrom (p : Pattern) (text : List Char) (place : Nat) : Option Nat :=
  let marks := Pattern.reach text p
    ((List.range (text.length + 1)).map fun i => i == place)
  (List.range (text.length + 1)).reverse.find? fun i => marks.getD i false

def filled (found : List Char) : List Char → List Char
  | [] => []
  | '\\' :: 'n' :: rest => '\n' :: filled found rest
  | '\\' :: c :: rest => c :: filled found rest
  | '&' :: rest => found ++ filled found rest
  | c :: rest => c :: filled found rest

def substitute (s : Substitution) (text : List Char) : Nat → Nat → List Char
  | 0, place => text.drop place
  | fuel + 1, place =>
    if text.length < place then []
    else match longestFrom s.pattern text place with
      | none => (text.drop place).take 1 ++ substitute s text fuel (place + 1)
      | some stop =>
        let put := filled ((text.take stop).drop place) s.replacement
        if !s.everywhere then put ++ text.drop stop
        else if stop = place then
          put ++ (text.drop place).take 1 ++ substitute s text fuel (place + 1)
        else put ++ substitute s text fuel stop

/- Lines are edited byte by byte, each byte taken as a character. -/
def editLine (edits : List Substitution) (line : Bytes) : Bytes :=
  let (body, ending) := if line.getLast? = some 10 then (line.dropLast, [10]) else (line, [])
  let text := body.map fun b => Char.ofNat b.toNat
  (edits.foldl (fun text s => substitute s text (text.length + 2) 0) text).map byte ++ ending

def latin (text : List Char) : List Char := (Utf8.encode text).map fun b => Char.ofNat b.toNat

def editScripts : List (List Char) → List (List Char)
  | ['-', 'e'] :: script :: rest => script :: editScripts rest
  | [script] => [script]
  | _ => []

def edit (input : Bytes) (arguments : List (List Char)) : Effect :=
  let scripts := (editScripts arguments).flatMap (cutAt ';')
  match scripts.mapM fun script => substitution? (latin (trim script)) with
  | some edits =>
    if edits.isEmpty then .fails input 1 "sed: no script specified"
    else .turns ((byteLines input).flatMap (editLine edits))
  | none => .fails input 1 "sed: unknown command"

def number? (text : List Char) : Option Nat :=
  if text.isEmpty ∨ !text.all Char.isDigit then none
  else some (text.foldl (fun n c => n * 10 + (c.toNat - 48)) 0)

def amount? : List (List Char) → Option (Bool × Nat)
  | [] => some (false, 10)
  | [['-', 'c'], n] => (number? n).map (true, ·)
  | [['-', 'n'], n] => (number? n).map (false, ·)
  | ['-' :: 'c' :: n] => (number? n).map (true, ·)
  | ['-' :: 'n' :: n] => (number? n).map (false, ·)
  | ['-' :: n] => (number? n).map (false, ·)
  | _ => none

def lastOf {α : Type} (n : Nat) (items : List α) : List α := items.drop (items.length - n)

def first (input : Bytes) (arguments : List (List Char)) : Effect :=
  match amount? arguments with
  | some (true, n) => .turns (input.take n)
  | some (false, n) => .turns ((byteLines input).take n).flatten
  | none => .fails input 1 "head: invalid option"

def last (input : Bytes) (arguments : List (List Char)) : Effect :=
  match amount? arguments with
  | some (true, n) => .turns (lastOf n input)
  | some (false, n) => .turns (lastOf n (byteLines input)).flatten
  | none => .fails input 1 "tail: invalid option"

def countLine (n : Nat) : Bytes := Utf8.encode (toString n ++ "\n").toList

def count (input : Bytes) : List (List Char) → Effect
  | [['-', 'c']] => .turns (countLine input.length)
  | [['-', 'l']] => .turns (countLine (input.count 10))
  | _ => .fails input 1 "wc: invalid option"

def seconds? (text : List Char) : Option Nat :=
  let whole := text.takeWhile (· != '.')
  let places := (text.drop (whole.length + 1)).take 3
  match number? whole, places with
  | some n, [] => some (n * 1000)
  | some n, _ => (number? places).map fun p => n * 1000 + p * Nat.pow 10 (3 - places.length)
  | none, _ => none

def sleep (input : Bytes) : List (List Char) → Effect
  | [text] => match seconds? text with
    | some n => ⟨[], [], input, 0, n, none⟩
    | none => .fails input 1 "sleep: invalid time interval"
  | _ => .fails input 1 "sleep: missing operand"

def signal? (name : List Char) : Option Nat :=
  match String.ofList name with
  | "HUP" | "SIGHUP" => some 1
  | "INT" | "SIGINT" => some 2
  | "QUIT" | "SIGQUIT" => some 3
  | "ABRT" | "SIGABRT" => some 6
  | "KILL" | "SIGKILL" => some 9
  | "SEGV" | "SIGSEGV" => some 11
  | "PIPE" | "SIGPIPE" => some 13
  | "ALRM" | "SIGALRM" => some 14
  | "TERM" | "SIGTERM" => some 15
  | _ => number? name

def ownNumber : List Char := "4096".toList

def kill (input : Bytes) (arguments : List (List Char)) : Effect :=
  let (signal, target) := match arguments with
    | [['-', 's'], name, target] => (signal? name, target)
    | ['-' :: name, target] => (signal? name, target)
    | [target] => (some 15, target)
    | _ => (none, [])
  match signal with
  | some n =>
    if target = ownNumber then ⟨[], [], input, 128 + n, 0, some (.signal n)⟩
    else .fails input 1 "kill: no such process"
  | none => .fails input 2 "kill: bad arguments"

def exit (input : Bytes) (previous : Nat) : List (List Char) → Effect
  | [] => ⟨[], [], input, previous, 0, some (.status previous)⟩
  | code :: _ => match number? code with
    | some n => ⟨[], [], input, n % 256, 0, some (.status (n % 256))⟩
    | none => ⟨[], [], input, 2, 0, some (.status 2)⟩

def copy (input : Bytes) : List (List Char) → Effect
  | [] | [['-']] => .turns input
  | name :: _ => .fails input 1 ("cat: " ++ String.ofList name ++ ": No such file or directory")

/- Here `place` names the script and the line, for the complaint about an unknown tool. -/
def tool (place : String) (previous : Nat) (input : Bytes) : List (List Char) → Effect
  | [] => .quiet input 0
  | name :: arguments =>
    match String.ofList name with
    | "cat" => copy input arguments
    | "printf" => match arguments with
      | format :: rest => .writes input (printed format (rest.length + 1) rest)
      | [] => .fails input 2 "printf: usage: printf format [arg ...]"
    | "echo" => echo input arguments
    | "true" | ":" => .quiet input 0
    | "false" => .quiet input 1
    | "exit" => exit input previous arguments
    | "tr" => exchange input arguments
    | "sed" => edit input arguments
    | "head" => first input arguments
    | "tail" => last input arguments
    | "wc" => count input arguments
    | "rev" => .turns ((byteLines input).flatMap fun line =>
        if line.getLast? = some 10 then line.dropLast.reverse ++ [10] else line.reverse)
    | "tac" => .turns (byteLines input).reverse.flatten
    | "sleep" => sleep input arguments
    | "kill" => kill input arguments
    | _ => .fails input 127 (place ++ ": " ++ String.ofList name ++ ": not found")

end CommentStrip.Shell
