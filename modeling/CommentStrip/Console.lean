import CommentStrip.Text.Basic

/-! What a run says, in lines. Parts of the output have a colour each, which shows only where
the reader asked for colours. -/
namespace CommentStrip.Console

inductive Style where
  | header
  | success
  | info
  | warn
  | error
  | diffAdded
  | diffRemoved
  | diffHeader
  deriving DecidableEq, Repr

def Style.code : Style → Nat
  | .header => 97
  | .success | .diffAdded => 32
  | .info => 36
  | .warn => 33
  | .error | .diffRemoved => 31
  | .diffHeader => 90

def Style.paint (style : Style) (colored : Bool) (text : String) : String :=
  if colored then "\x1b[" ++ toString style.code ++ "m" ++ text ++ "\x1b[39m" else text

def line (text : String) : String := text ++ "\n"

inductive Level where
  | info
  | warn
  | error
  deriving DecidableEq, Repr

def Level.label : Level → String
  | .info => "INFO:"
  | .warn => "WARN:"
  | .error => "ERROR:"

def Level.style : Level → Style
  | .info => .info
  | .warn => .warn
  | .error => .error

def message (level : Level) (colored : Bool) (text : String) : String :=
  line (level.style.paint colored level.label ++ " " ++ text)

end CommentStrip.Console
