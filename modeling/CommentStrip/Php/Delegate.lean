import CommentStrip.Text.Utf8

/-! A delegate strips comments from PHP source by other means. It answers with a text or says
why it cannot; a request carries the source and the keep patterns as they were written. -/
namespace CommentStrip.Php

inductive DelegateError where
  | unavailable (reason : String)
  | failed (status : Nat) (stderr : List Char)
  | killed (signal : Nat) (stderr : List Char)
  | timedOut (milliseconds : Nat)
  | notStarted
  | invalidOutput (fault : Text.Utf8.Fault)
  deriving DecidableEq, Repr

def fraction (parts places : Nat) : String :=
  let digits := (toString parts).toList
  let full := List.replicate (places - digits.length) '0' ++ digits
  let short := (full.reverse.dropWhile (· == '0')).reverse
  if short.isEmpty then "" else "." ++ String.ofList short

/- Whole and decimal seconds from a second on, milliseconds below, nanoseconds for nothing. -/
def duration (milliseconds : Nat) : String :=
  if milliseconds = 0 then "0ns"
  else if milliseconds < 1000 then toString milliseconds ++ "ms"
  else toString (milliseconds / 1000) ++ fraction (milliseconds % 1000) 3 ++ "s"

def signalName : Nat → String
  | 1 => " (SIGHUP)"
  | 2 => " (SIGINT)"
  | 3 => " (SIGQUIT)"
  | 6 => " (SIGABRT)"
  | 9 => " (SIGKILL)"
  | 11 => " (SIGSEGV)"
  | 13 => " (SIGPIPE)"
  | 14 => " (SIGALRM)"
  | 15 => " (SIGTERM)"
  | _ => ""

def DelegateError.message : DelegateError → String
  | .unavailable reason => "PHP interpreter is not available: " ++ reason
  | .failed status stderr =>
    "PHP tokenizer exited with exit status: " ++ toString status ++ ": " ++ String.ofList stderr
  | .killed signal stderr =>
    "PHP tokenizer exited with signal: " ++ toString signal ++ signalName signal ++ ": " ++
      String.ofList stderr
  | .timedOut milliseconds => "PHP tokenizer timed out after " ++ duration milliseconds
  | .notStarted => "I/O error while talking to the PHP tokenizer"
  | .invalidOutput fault => "PHP tokenizer produced invalid UTF-8: " ++ fault.message

abbrev Delegate := (text : List Char) → (keep : List String) → Except DelegateError (List Char)

def noDelegate : Delegate := fun _ _ => .error (.unavailable "PHP delegate disabled")

end CommentStrip.Php
