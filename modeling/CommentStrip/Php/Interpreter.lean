import CommentStrip.Json
import CommentStrip.Php.Delegate

/-! The delegate that asks a PHP interpreter on the command line. The interpreter gets a program
that takes the source on its input and the keep patterns as its argument. -/
namespace CommentStrip.Php
open Text

inductive Exit where
  | status (code : Nat)
  | signal (number : Nat)
  deriving DecidableEq, Repr

structure Finished where
  exit : Exit
  output : List UInt8
  errors : List UInt8
  milliseconds : Nat
  deriving DecidableEq, Repr

inductive Interpreter where
  | missing
  | unusable
  | command (run : (arguments : List (List Char)) → (input : List UInt8) → Finished)

/- Comments that match no pattern are blanked, all other tokens are written as they are. -/
def program : String :=
"
$code = stream_get_contents(STDIN);
$keep = json_decode($argv[1] ?? '[]', true);
if (!is_array($keep)) \x7b $keep = []; \x7d
$out = '';
foreach (token_get_all($code) as $tok) \x7b
    if (!is_array($tok)) \x7b $out .= $tok; continue; \x7d
    [$id, $text] = $tok;
    if ($id !== T_COMMENT && $id !== T_DOC_COMMENT) \x7b $out .= $text; continue; \x7d
    $kept = false;
    foreach ($keep as $pat) \x7b
        if (@preg_match('~' . str_replace('~', '\\~', $pat) . '~u', $text) === 1) \x7b $kept = true; break; \x7d
    \x7d
    $out .= $kept ? $text : preg_replace('/[^\\r\\n]/u', ' ', $text);
\x7d
fwrite(STDOUT, $out);
"

def keepJson (keep : List String) : String :=
  Json.compact (.array (keep.map fun pattern => .text pattern.toList))

def arguments (keep : List String) : List (List Char) :=
  ["-r".toList, program.toList, "--".toList, (keepJson keep).toList]

/- The time is looked at first, then the exit, then the output. -/
def judge (timeout : Nat) (finished : Finished) : Except DelegateError (List Char) :=
  if timeout ≤ finished.milliseconds then .error (.timedOut timeout)
  else
    let stderr := trim (Utf8.decodeLossy finished.errors)
    match finished.exit with
    | .signal number => .error (.killed number stderr)
    | .status 0 => match Utf8.decode finished.output with
      | .ok reply => .ok reply
      | .error fault => .error (.invalidOutput fault)
    | .status code => .error (.failed code stderr)

def commandLine (binary : String) (timeout : Nat) (interpreter : Interpreter) : Delegate :=
  fun text keep =>
    match interpreter with
    | .missing => .error (.unavailable ("'" ++ binary ++ "' not found"))
    | .unusable => .error .notStarted
    | .command run => judge timeout (run (arguments keep) (Utf8.encode text))

def missingWarning (binary : String) : String :=
  "[WARN decomment_core::delegate] PHP interpreter '" ++ binary ++
    "' not found; PHP comments will be stripped with the built-in scanner.\n"

end CommentStrip.Php
