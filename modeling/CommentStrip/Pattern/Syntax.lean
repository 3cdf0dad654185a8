import CommentStrip.Unicode.Character

/-! Patterns as users write them for comments and paths, after reading. Only the question
whether a pattern occurs in a text is ever asked, so groups and the preference between
repetitions leave no trace here. -/
namespace CommentStrip.Pattern
open Unicode

inductive CharSet where
  | none
  | range (low high : Char)
  | white
  | digit
  | word
  | union (left right : CharSet)
  | inter (left right : CharSet)
  | minus (left right : CharSet)
  | symmetric (left right : CharSet)
  | compl (set : CharSet)
  | folded (set : CharSet)
  /-- The same for the letters from a to z alone. -/
  | asciiFolded (set : CharSet)
  deriving DecidableEq, Repr

namespace CharSet

def mem : CharSet → Char → Bool
  | .none, _ => false
  | .range low high, c => low.toNat ≤ c.toNat && c.toNat ≤ high.toNat
  | .white, c => isWhite c
  | .digit, c => isDigit c
  | .word, c => isWord c
  | .union a b, c => a.mem c || b.mem c
  | .inter a b, c => a.mem c && b.mem c
  | .minus a b, c => a.mem c && !b.mem c
  | .symmetric a b, c => a.mem c != b.mem c
  | .compl a, c => !a.mem c
  | .folded a, c => a.mem c || (caseClass c).any a.mem
  | .asciiFolded a, c => (asciiCaseClass c).any a.mem

def single (c : Char) : CharSet := .range c c

def any : CharSet := .compl .none

def ofRanges (ranges : List (Char × Char)) : CharSet :=
  ranges.foldr (fun r set => .union (.range r.1 r.2) set) .none

theorem memSingle (c d : Char) : (single c).mem d = true ↔ d = c := by
  simp only [single, mem, Bool.and_eq_true, decide_eq_true_eq]
  constructor
  · intro h
    exact Char.toNat_inj.mp (by omega)
  · rintro rfl
    omega

end CharSet

inductive Look where
  | textStart
  | textEnd
  | lineStart (carriage : Bool)
  | lineEnd (carriage : Bool)
  | wordEdge (wide : Bool)
  | noWordEdge (wide : Bool)
  | wordStart (wide : Bool)
  | wordEnd (wide : Bool)
  | wordStartHalf (wide : Bool)
  | wordEndHalf (wide : Bool)
  deriving DecidableEq, Repr

namespace Look

def asciiWord (c : Char) : Bool := c.isAlphanum || c == '_'

/- With `wide`, takes the word characters of all scripts. -/
def isWordAt (wide : Bool) (c : Option Char) : Bool :=
  c.any fun c => if wide then isWord c else asciiWord c

def holds : Look → (before behind : Option Char) → Bool
  | .textStart, before, _ => before.isNone
  | .textEnd, _, behind => behind.isNone
  | .lineStart false, before, _ => before.isNone || before == some '\n'
  | .lineStart true, before, behind =>
    before.isNone || before == some '\n' || (before == some '\r' && behind != some '\n')
  | .lineEnd false, _, behind => behind.isNone || behind == some '\n'
  | .lineEnd true, before, behind =>
    behind.isNone || behind == some '\r' || (behind == some '\n' && before != some '\r')
  | .wordEdge wide, before, behind => isWordAt wide before != isWordAt wide behind
  | .noWordEdge wide, before, behind => isWordAt wide before == isWordAt wide behind
  | .wordStart wide, before, behind => !isWordAt wide before && isWordAt wide behind
  | .wordEnd wide, before, behind => isWordAt wide before && !isWordAt wide behind
  | .wordStartHalf wide, before, _ => !isWordAt wide before
  | .wordEndHalf wide, _, behind => !isWordAt wide behind

end Look
end CommentStrip.Pattern

namespace CommentStrip

inductive Pattern where
  | empty
  | char (set : Pattern.CharSet)
  | look (condition : Pattern.Look)
  | seq (first second : Pattern)
  | alt (left right : Pattern)
  | rep (least : Nat) (most : Option Nat) (body : Pattern)
  deriving DecidableEq, Repr

namespace Pattern

def optional (p : Pattern) : Pattern := .rep 0 (some 1) p

def star (p : Pattern) : Pattern := .rep 0 none p

def plus (p : Pattern) : Pattern := .rep 1 none p

end Pattern
end CommentStrip
