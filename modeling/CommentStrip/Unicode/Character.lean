import CommentStrip.Unicode.Ranges
import CommentStrip.Unicode.CaseRanges

/-! Character classes and case, as the scanners and the pattern language use them. -/
namespace CommentStrip.Unicode

def isWhite (c : Char) : Bool := within whiteRanges c

def isDigit (c : Char) : Bool := within digitRanges c

def isWord (c : Char) : Bool := within wordRanges c

def isCased (c : Char) : Bool := within casedRanges c

def isCaseIgnorable (c : Char) : Bool := within caseIgnorableRanges c

def isLetter (c : Char) : Bool := isWord c && !isDigit c && c != '_'

def isAscii (c : Char) : Bool := c.toNat < 128

def fold (c : Char) : Char := shifted foldShifts c

def caseClass (c : Char) : List Char :=
  let f := fold c
  f :: foldShifts.filterMap fun s => (s.origin f.toNat).map Char.ofNat

def asciiLower (c : Char) : Char :=
  if 'A' ≤ c ∧ c ≤ 'Z' then Char.ofNat (c.toNat + 32) else c

def asciiCaseClass (c : Char) : List Char :=
  if 'A' ≤ c ∧ c ≤ 'Z' then [c, Char.ofNat (c.toNat + 32)]
  else if 'a' ≤ c ∧ c ≤ 'z' then [c, Char.ofNat (c.toNat - 32)]
  else [c]

/- A capital sigma ends a word when the nearest characters with case, on either side and
past those that do not count, are one before it and none behind it. -/
def closesWord (before after : List Char) : Bool :=
  let near (cs : List Char) := ((cs.dropWhile isCaseIgnorable).head?.map isCased).getD false
  near before && !near after

def lowerFrom (before : List Char) : List Char → List Char
  | [] => []
  | 'İ' :: rest => 'i' :: '\u0307' :: lowerFrom ('İ' :: before) rest
  | 'Σ' :: rest => (if closesWord before rest then 'ς' else 'σ') :: lowerFrom ('Σ' :: before) rest
  | c :: rest => shifted lowerShifts c :: lowerFrom (c :: before) rest

/- The text in lower case. Two characters have no lower case of their own: the dotted capital
i becomes two characters, and the capital sigma depends on its place in the word. -/
def lower (text : List Char) : List Char := lowerFrom [] text

end CommentStrip.Unicode
