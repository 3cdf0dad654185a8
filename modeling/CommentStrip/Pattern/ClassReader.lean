import CommentStrip.Pattern.Meaning

/-! Bracketed classes: items side by side, ranges, named ASCII classes, classes inside classes,
and the operators `&&`, `--` and `~~`, which bind weaker than standing side by side and group
to the left. -/
namespace CommentStrip.Pattern
open Unicode

inductive ClassOp where
  | inter
  | minus
  | symmetric
  deriving DecidableEq, Repr

def ClassOp.apply : ClassOp → CharSet → CharSet → CharSet
  | .inter => .inter
  | .minus => .minus
  | .symmetric => .symmetric

def asciiClass (name : List Char) : Option CharSet :=
  match String.ofList name with
  | "alnum" => some (.ofRanges [('0', '9'), ('A', 'Z'), ('a', 'z')])
  | "alpha" => some (.ofRanges [('A', 'Z'), ('a', 'z')])
  | "ascii" => some (.range '\x00' '\x7f')
  | "blank" => some (.ofRanges [('\t', '\t'), (' ', ' ')])
  | "cntrl" => some (.ofRanges [('\x00', '\x1f'), ('\x7f', '\x7f')])
  | "digit" => some asciiDigits
  | "graph" => some (.range '!' '~')
  | "lower" => some (.range 'a' 'z')
  | "print" => some (.range ' ' '~')
  | "punct" => some (.ofRanges [('!', '/'), (':', '@'), ('[', '\x60'), ('\x7b', '~')])
  | "space" => some asciiWhite
  | "upper" => some (.range 'A' 'Z')
  | "word" => some asciiWordSet
  | "xdigit" => some (.ofRanges [('0', '9'), ('A', 'F'), ('a', 'f')])
  | _ => none

/- A bracket that is open: what a report of its missing end points at, what stood beside it in
the bracket around it, and the operator that waits for its right side. -/
structure Bracket where
  start : Site
  span : Span
  negated : Bool
  outer : CharSet
  pending : Option (ClassOp × CharSet)

structure ClassState where
  brackets : List Bracket
  items : CharSet
  fault : Option Fault

namespace ClassState

def unclosed {α : Type} (st : ClassState) : Except Fault α :=
  match st.brackets with
  | b :: _ => fail .classUnclosed b.span
  | [] => fail .classUnclosed ⟨0, 0⟩

def add (st : ClassState) (set : CharSet) (fault : Option Fault) : ClassState :=
  { st with items := .union st.items set, fault := st.fault <|> fault }

end ClassState

/- Hyphens in front are plain, and so is a closing bracket in first place. -/
def leadingHyphens (verbose : Bool) (opened : Site) (items : CharSet) (s : Site) :
    Except Fault (CharSet × Site) :=
  match _h : s.rest with
  | '-' :: _ =>
    let behind := s.next verbose
    if behind.atEnd then fail .classUnclosed opened.here
    else leadingHyphens verbose opened (.union items (.single '-')) behind
  | _ => .ok (items, s)
termination_by s.rest.length
decreasing_by exact Site.nextShorter verbose s (by simp [_h])

def openBracket (verbose : Bool) (s : Site) (st : ClassState) :
    Except Fault (ClassState × Site) := do
  let first := s.next verbose
  if first.atEnd then fail .classUnclosed (s.upTo first)
  let negated := first.char? = some '^'
  let inside := if negated then first.next verbose else first
  if inside.atEnd then fail .classUnclosed (s.upTo inside)
  let (hyphens, body) ← leadingHyphens verbose s .none inside
  let (items, last) ←
    if body.index = inside.index ∧ body.char? = some ']' then
      let behind := body.next verbose
      if behind.atEnd then fail .classUnclosed (s.upTo behind)
      else pure (CharSet.union hyphens (.single ']'), behind)
    else pure (hyphens, body)
  return ({ st with
    brackets := ⟨s, s.upTo last, negated, st.items, none⟩ :: st.brackets, items := items }, last)

def combine (flags : Flags) (pending : Option (ClassOp × CharSet)) (items : CharSet) : CharSet :=
  match pending with
  | none => items
  | some (op, left) => op.apply (closeCase flags left) (closeCase flags items)

def finishSet (flags : Flags) (negated : Bool) (set : CharSet) : CharSet :=
  let closed := closeCase flags set
  if negated then .compl closed else closed

def closeBracket (flags : Flags) (b : Bracket) (outer : List Bracket) (s : Site) (st : ClassState) :
    ClassState :=
  let set := finishSet flags b.negated (combine flags b.pending st.items)
  let fault : Option Fault :=
    if !flags.wide && spoilsText set then some ⟨.invalidUtf8, b.start.upTo s, none⟩ else none
  ClassState.add ⟨outer, b.outer, st.fault⟩ set fault

def namedClass (flags : Flags) (s : Site) : Option (CharSet × Site) := do
  let rest ← Text.after ['[', ':'] s.rest
  let negated := rest.head? = some '^'
  let body := if negated then rest.drop 1 else rest
  let name := body.takeWhile (· != ':')
  let _ ← Text.after [':', ']'] (body.drop name.length)
  let set ← asciiClass name
  let width := name.length + (if negated then 5 else 4)
  return (finishSet flags negated set, s.advance width)

def classAtom (verbose : Bool) (s : Site) : Except Fault (Atom × Site) :=
  match s.char? with
  | some '\\' => escape verbose s
  | some c => .ok (.literal c false, s.advance 1)
  | none => fail .escapeEnd s.here

def boundary (span : Span) : Atom → Except Fault (Char × Bool)
  | .literal c byte => .ok (c, byte)
  | _ => fail .classRangeBoundary span

def literalFault (flags : Flags) (c : Char) (byte : Bool) (span : Span) : Option Fault :=
  if literalSpoils flags c byte then some ⟨.invalidUtf8, span, none⟩
  else if !flags.wide && !isAscii c then some ⟨.unicodeNotAllowed, span, none⟩
  else none

def itemSet (flags : Flags) (span : Span) : Atom → Except Fault (Meant CharSet)
  | .literal c byte => .ok ⟨.single c, literalFault flags c byte span⟩
  | .shorthand kind negated => .ok (shorthandMeaning flags kind negated span)
  | .property name negated => .ok (propertyMeaning flags name negated span)
  | _ => fail .classEscapeInvalid span

def classRange (flags : Flags) (s : Site) (st : ClassState) : Except Fault (ClassState × Site) := do
  let verbose := flags.verbose
  let (first, afterFirst) ← classAtom verbose s
  let hyphen := afterFirst.spaces verbose
  let firstSpan := s.upTo afterFirst
  match hyphen.char? with
  | none => st.unclosed
  | some c =>
    let ahead := hyphen.peek verbose
    if c != '-' || ahead == some ']' || ahead == some '-' then
      let meant ← itemSet flags firstSpan first
      return (st.add meant.value meant.fault, hyphen)
    else
      let second := hyphen.next verbose
      if second.atEnd then st.unclosed
      else
        let (last, behind) ← classAtom verbose second
        let (low, lowByte) ← boundary firstSpan first
        let (high, highByte) ← boundary (second.upTo behind) last
        if high.toNat < low.toNat then fail .classRangeInvalid (s.upTo behind)
        else
          let fault := literalFault flags low lowByte firstSpan <|>
            literalFault flags high highByte (second.upTo behind)
          return (st.add (.range low high) fault, behind)

def classOperator (s : Site) : Option ClassOp :=
  if s.starts "&&" then some .inter
  else if s.starts "--" then some .minus
  else if s.starts "~~" then some .symmetric
  else none

def classStep (flags : Flags) (s : Site) (st : ClassState) :
    Except Fault ((ClassState × Site) ⊕ (Meant CharSet × Site)) :=
  match st.brackets, s.char? with
  | _, none => st.unclosed
  | [], _ => st.unclosed
  | b :: outer, some c =>
    if c = '[' then
      match namedClass flags s with
      | some (set, behind) => .ok (.inl (st.add set none, behind))
      | none => (openBracket flags.verbose s st).map .inl
    else if c = ']' then
      let behind := s.advance 1
      let closed := closeBracket flags b outer behind st
      if outer.isEmpty then .ok (.inr (⟨closed.items, closed.fault⟩, behind))
      else .ok (.inl (closed, behind))
    else match classOperator s with
      | some op =>
        let left := combine flags b.pending st.items
        .ok (.inl ({ st with
          brackets := { b with pending := some (op, left) } :: outer, items := .none },
          s.advance 2))
      | none => (classRange flags s st).map .inl

/- Every step moves on; one that did not would end the reading. -/
def classFrom (flags : Flags) (s : Site) (st : ClassState) : Except Fault (Meant CharSet × Site) :=
  match classStep flags (s.spaces flags.verbose) st with
  | .error fault => .error fault
  | .ok (.inr result) => .ok result
  | .ok (.inl (later, behind)) =>
    if behind.rest.length < s.rest.length then classFrom flags behind later else st.unclosed
termination_by s.rest.length

def readClass (flags : Flags) (s : Site) : Except Fault (Meant CharSet × Site) := do
  let (st, behind) ← openBracket flags.verbose s ⟨[], .none, none⟩
  classFrom flags behind st

end CommentStrip.Pattern
