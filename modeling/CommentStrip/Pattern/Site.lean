import CommentStrip.Pattern.Fault
import CommentStrip.Pattern.Syntax

/-! A place in the written pattern: how many characters lie before it and which lie behind. In
verbose mode white space and notes from `#` to the end of the line do not count. -/
namespace CommentStrip.Pattern
open Unicode

structure Site where
  index : Nat
  rest : List Char
  deriving DecidableEq, Repr

def spaceWidth (note : Bool) : List Char → Nat
  | [] => 0
  | c :: rest =>
    if note then spaceWidth (c != '\n') rest + 1
    else if isWhite c then spaceWidth false rest + 1
    else if c == '#' then spaceWidth true rest + 1
    else 0

namespace Site

def start (pattern : List Char) : Site := ⟨0, pattern⟩

def advance (n : Nat) (s : Site) : Site := ⟨s.index + min n s.rest.length, s.rest.drop n⟩

def spaces (verbose : Bool) (s : Site) : Site :=
  if verbose then s.advance (spaceWidth false s.rest) else s

def next (verbose : Bool) (s : Site) : Site := (s.advance 1).spaces verbose

def char? (s : Site) : Option Char := s.rest.head?

def peek (verbose : Bool) (s : Site) : Option Char := (s.next verbose).char?

def atEnd (s : Site) : Bool := s.rest.isEmpty

def upTo (s t : Site) : Span := ⟨s.index, t.index⟩

def here (s : Site) : Span := ⟨s.index, s.index⟩

def glyph (s : Site) : Span := s.upTo (s.advance 1)

def starts (word : String) (s : Site) : Bool := Text.startsWith word.toList s.rest

theorem advanceShorter (n : Nat) (s : Site) : (s.advance n).rest.length ≤ s.rest.length := by
  simp [advance]

theorem nextShorter (verbose : Bool) (s : Site) (more : s.rest ≠ []) :
    (s.next verbose).rest.length < s.rest.length := by
  cases h : s.rest with
  | nil => exact absurd h more
  | cons c rest =>
    have one : (s.advance 1).rest.length = rest.length := by simp [advance, h]
    simp only [next, spaces]
    split
    · have := advanceShorter (spaceWidth false (s.advance 1).rest) (s.advance 1)
      simp only [List.length_cons]
      omega
    · simp [one]

def takeWhile (verbose : Bool) (p : Char → Bool) (s : Site) : List Char × Site :=
  match _h : s.rest with
  | [] => ([], s)
  | c :: _ =>
    if p c then
      let later := takeWhile verbose p (s.next verbose)
      (c :: later.1, later.2)
    else ([], s)
termination_by s.rest.length
decreasing_by exact nextShorter verbose s (by simp [_h])

end Site

def fail {α : Type} (cause : Cause) (span : Span) : Except Fault α := .error ⟨cause, span, none⟩

end CommentStrip.Pattern
