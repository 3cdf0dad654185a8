import CommentStrip.Pattern.Escape

/-! What an atom means under the flags in force. Some atoms have no meaning although they are
well written; such a fault counts only when the whole pattern can be read, and then the first
of them counts. -/
namespace CommentStrip.Pattern
open Unicode

structure Flags where
  caseless : Bool
  multiLine : Bool
  dotAll : Bool
  /-- Shorthands and case reach beyond ASCII. -/
  wide : Bool
  verbose : Bool
  /-- A carriage return counts as a line end. -/
  carriage : Bool
  deriving DecidableEq, Repr

def Flags.initial : Flags := ⟨false, false, false, true, false, false⟩

structure Meant (α : Type) where
  value : α
  fault : Option Fault
  deriving DecidableEq, Repr

namespace Meant

def sound {α : Type} (a : α) : Meant α := ⟨a, none⟩

def faulty {α : Type} (a : α) (cause : Cause) (span : Span) : Meant α :=
  ⟨a, some ⟨cause, span, none⟩⟩

end Meant

def asciiDigits : CharSet := .range '0' '9'

def asciiWhite : CharSet := .ofRanges [('\t', '\t'), ('\n', '\n'), ('\x0b', '\r'), (' ', ' ')]

def asciiWordSet : CharSet := .ofRanges [('0', '9'), ('A', 'Z'), ('_', '_'), ('a', 'z')]

def shorthandSet (wide : Bool) : Shorthand → CharSet
  | .digit => if wide then .digit else asciiDigits
  | .white => if wide then .white else asciiWhite
  | .word => if wide then .word else asciiWordSet

/- Without wide characters a set speaks of bytes, and a byte above 127 is no character. -/
def spoilsText (set : CharSet) : Bool :=
  (List.range 128).any fun n => set.mem (Char.ofNat (n + 128))

def closeCase (flags : Flags) (set : CharSet) : CharSet :=
  if flags.caseless then (if flags.wide then .folded set else .asciiFolded set) else set

/- Names are compared without case, spaces, hyphens and underscores. -/
def namedSet (name : List Char) : Option CharSet :=
  let plain := (name.filter fun c => c != ' ' && c != '-' && c != '_').map asciiLower
  match String.ofList plain with
  | "any" => some .any
  | "ascii" => some (.range '\x00' '\x7f')
  | "nd" | "decimalnumber" | "digit" => some .digit
  | "whitespace" | "space" | "wspace" => some .white
  | _ => none

def shorthandMeaning (flags : Flags) (kind : Shorthand) (negated : Bool) (span : Span) :
    Meant CharSet :=
  let set := shorthandSet flags.wide kind
  if !negated then .sound set
  else if flags.wide then .sound (.compl set)
  else .faulty (.compl set) .invalidUtf8 span

def propertyMeaning (flags : Flags) (name : List Char) (negated : Bool) (span : Span) :
    Meant CharSet :=
  if !flags.wide then .faulty .none .unicodeNotAllowed span
  else match namedSet name with
    | none => .faulty .none .propertyNotFound span
    | some set => .sound (closeCase flags (if negated then .compl set else set))

def literalSpoils (flags : Flags) (c : Char) (byte : Bool) : Bool :=
  !flags.wide && byte && 128 ≤ c.toNat

def atomMeaning (flags : Flags) (span : Span) : Atom → Meant Pattern
  | .literal c byte =>
    let p := Pattern.char (closeCase flags (.single c))
    if literalSpoils flags c byte then .faulty p .invalidUtf8 span else .sound p
  | .dot =>
    let set : CharSet :=
      if flags.dotAll then .any
      else if flags.carriage then .compl (.ofRanges [('\n', '\n'), ('\r', '\r')])
      else .compl (.single '\n')
    if flags.wide then .sound (.char set) else .faulty (.char set) .invalidUtf8 span
  | .caret => .sound (.look (if flags.multiLine then .lineStart flags.carriage else .textStart))
  | .dollar => .sound (.look (if flags.multiLine then .lineEnd flags.carriage else .textEnd))
  | .look condition => .sound (.look (condition flags.wide))
  | .shorthand kind negated =>
    let meant := shorthandMeaning flags kind negated span
    ⟨.char meant.value, meant.fault⟩
  | .property name negated =>
    let meant := propertyMeaning flags name negated span
    ⟨.char meant.value, meant.fault⟩

end CommentStrip.Pattern
