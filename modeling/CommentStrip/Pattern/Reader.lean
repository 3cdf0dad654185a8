import CommentStrip.Pattern.ClassReader

/-! Reading a whole pattern from left to right. Open groups wait on a stack with what stood
before them; flags set inside a group end with it. -/
namespace CommentStrip.Pattern
open Unicode

/- Flags in place are an item, because a repetition cannot apply to them. -/
inductive Item where
  | setting
  | node (p : Pattern)
  deriving DecidableEq, Repr

structure Group where
  opened : Span
  flags : Flags
  alternatives : List Pattern
  items : List Item

/- Alternatives and items are held latest first. -/
structure State where
  groups : List Group
  alternatives : List Pattern
  items : List Item
  flags : Flags
  names : List (List Char × Span)
  fault : Option Fault

namespace State

def initial : State := ⟨[], [], [], .initial, [], none⟩

def sequence (items : List Item) : Pattern :=
  items.foldl (fun later item => match item with
    | .setting => later
    | .node p => .seq p later) .empty

def body (st : State) : Pattern :=
  st.alternatives.foldl (fun later p => .alt p later) (sequence st.items)

def push (st : State) (meant : Meant Pattern) : State :=
  { st with items := .node meant.value :: st.items, fault := st.fault <|> meant.fault }

def separate (st : State) : State :=
  { st with alternatives := sequence st.items :: st.alternatives, items := [] }

def openGroup (st : State) (opened : Span) (flags : Flags) : State :=
  { st with
    groups := ⟨opened, st.flags, st.alternatives, st.items⟩ :: st.groups
    alternatives := [], items := [], flags := flags }

def closeGroup (st : State) : Option State :=
  match st.groups with
  | [] => none
  | g :: outer => some { st with
      groups := outer, alternatives := g.alternatives, items := .node st.body :: g.items
      flags := g.flags }

end State

inductive FlagName where
  | caseless
  | multiLine
  | dotAll
  | swapGreed
  | wide
  | carriage
  | verbose
  deriving DecidableEq, Repr

def flagName : Char → Option FlagName
  | 'i' => some .caseless
  | 'm' => some .multiLine
  | 's' => some .dotAll
  | 'U' => some .swapGreed
  | 'u' => some .wide
  | 'R' => some .carriage
  | 'x' => some .verbose
  | _ => none

def Flags.set (flags : Flags) (value : Bool) : FlagName → Flags
  | .caseless => { flags with caseless := value }
  | .multiLine => { flags with multiLine := value }
  | .dotAll => { flags with dotAll := value }
  | .swapGreed => flags
  | .wide => { flags with wide := value }
  | .carriage => { flags with carriage := value }
  | .verbose => { flags with verbose := value }

structure FlagList where
  flags : Flags
  seen : List (FlagName × Span)
  negation : Option Span
  /-- The hyphen, when it is the latest item. -/
  dangling : Option Span

def flagList (found : FlagList) (s : Site) : Except Fault (FlagList × Site) :=
  match _h : s.rest with
  | [] => fail .flagEnd s.here
  | c :: _ =>
    if c = ':' ∨ c = ')' then
      match found.dangling with
      | some span => fail .flagDanglingNegation span
      | none => .ok (found, s)
    else
      let behind := s.advance 1
      if c = '-' then
        match found.negation with
        | some first => .error ⟨.flagRepeatedNegation, s.glyph, some first⟩
        | none =>
          if behind.atEnd then fail .flagEnd behind.here
          else flagList { found with negation := some s.glyph, dangling := some s.glyph } behind
      else match flagName c with
        | none => fail .flagUnrecognized s.glyph
        | some name =>
          match found.seen.find? (·.1 = name) with
          | some (_, first) => .error ⟨.flagDuplicate, s.glyph, some first⟩
          | none =>
            if behind.atEnd then fail .flagEnd behind.here
            else flagList ⟨found.flags.set found.negation.isNone name,
              (name, s.glyph) :: found.seen, found.negation, none⟩ behind
termination_by s.rest.length
decreasing_by all_goals simp [Site.advance, _h]

def isNameChar (first : Bool) (c : Char) : Bool :=
  if first then c == '_' || isLetter c
  else c == '_' || c == '.' || c == '[' || c == ']' || isLetter c || isDigit c

def nameWidth (first : Bool) : List Char → Nat
  | [] => 0
  | c :: rest => if isNameChar first c then nameWidth false rest + 1 else 0

def groupName (s : Site) (names : List (List Char × Span)) :
    Except Fault (List (List Char × Span) × Site) :=
  let last := s.advance (nameWidth true s.rest)
  match last.char? with
  | none => fail .groupNameEnd last.here
  | some '>' =>
    let name := s.rest.take (nameWidth true s.rest)
    let span := s.upTo last
    if name.isEmpty then fail .groupNameEmpty s.here
    else match names.find? (·.1 = name) with
      | some (_, first) => .error ⟨.groupNameDuplicate, span, some first⟩
      | none => .ok ((name, span) :: names, last.advance 1)
  | some _ => fail .groupNameInvalid last.glyph

def lookAroundWidth (s : Site) : Option Nat :=
  if s.starts "?=" || s.starts "?!" then some 2
  else if s.starts "?<=" || s.starts "?<!" then some 3
  else none

def readGroup (st : State) (s : Site) : Except Fault (State × Site) := do
  let inside := (s.advance 1).spaces st.flags.verbose
  match lookAroundWidth inside with
  | some width => fail .lookAround (s.upTo (inside.advance width))
  | none =>
    let nameAt : Option Site :=
      if inside.starts "?P<" then some (inside.advance 3)
      else if inside.starts "?<" then some (inside.advance 2)
      else none
    match nameAt with
    | some first =>
      let (names, behind) ← groupName first st.names
      return ({ st with names := names }.openGroup s.glyph st.flags, behind)
    | none =>
      if inside.char? = some '?' then
        let first := inside.advance 1
        if first.atEnd then fail .groupUnclosed s.glyph
        else
          let (found, last) ← flagList ⟨st.flags, [], none, none⟩ first
          let behind := last.advance 1
          if last.char? = some ')' then
            if found.seen.isEmpty ∧ found.negation.isNone then fail .repetitionMissing inside.here
            else return ({ st with flags := found.flags, items := .setting :: st.items }, behind)
          else return (st.openGroup s.glyph found.flags, behind)
      else return (st.openGroup s.glyph st.flags, inside)

def repeated (st : State) (s : Site) : Except Fault (Pattern × State) :=
  match st.items with
  | .node p :: items => .ok (p, { st with items := items })
  | _ => fail .repetitionMissing s.here

def skipLazy (s : Site) : Site := if s.char? = some '?' then s.advance 1 else s

def readRepetition (least : Nat) (most : Option Nat) (st : State) (s : Site) :
    Except Fault (State × Site) := do
  let (p, st) ← repeated st s
  return (st.push (.sound (.rep least most p)), skipLazy (s.advance 1))

def decimal (verbose : Bool) (s : Site) : Except Fault Nat × Site :=
  let first := (s.takeWhile false isWhite).2
  let (digits, last) := first.takeWhile verbose Char.isDigit
  let behind := (last.takeWhile verbose isWhite).2
  let value := digits.foldl (fun n c => n * 10 + (c.toNat - 48)) 0
  if digits.isEmpty then (fail .repetitionDecimalEmpty (first.upTo last), behind)
  else if value < UInt32.size then (.ok value, behind)
  else (fail .decimalInvalid (first.upTo last), behind)

def readCounted (st : State) (s : Site) : Except Fault (State × Site) := do
  let verbose := st.flags.verbose
  let (p, st) ← repeated st s
  let first := s.next verbose
  if first.atEnd then fail .repetitionUnclosed (s.upTo first)
  let (low, last) := decimal verbose first
  if last.atEnd then fail .repetitionUnclosed (s.upTo last)
  let (least, most, close) ←
    if last.char? = some ',' then
      let second := last.next verbose
      if second.atEnd then fail .repetitionUnclosed (s.upTo second)
      else if second.char? = some '}' then do
        let n ← low
        pure (n, none, second)
      else do
        let n ← low
        let (high, close) := decimal verbose second
        let m ← high
        pure (n, some m, close)
    else do
      let n ← low
      pure (n, some n, last)
  if close.char? != some '}' then fail .repetitionUnclosed (s.upTo close)
  let behind := skipLazy (close.next verbose)
  if (most.any fun m => decide (m < least)) then fail .repetitionRange (s.upTo behind)
  return (st.push (.sound (.rep least most p)), behind)

def step (st : State) (c : Char) (s : Site) : Except Fault (State × Site) := do
  match c with
  | '(' => readGroup st s
  | ')' =>
    match st.closeGroup with
    | none => fail .groupUnopened s.glyph
    | some st => return (st, s.advance 1)
  | '|' => return (st.separate, s.advance 1)
  | '[' =>
    let (meant, behind) ← readClass st.flags s
    return (st.push ⟨.char meant.value, meant.fault⟩, behind)
  | '?' => readRepetition 0 (some 1) st s
  | '*' => readRepetition 0 none st s
  | '+' => readRepetition 1 none st s
  | '{' => readCounted st s
  | _ =>
    let (a, behind) ← atom st.flags.verbose c s
    return (st.push (atomMeaning st.flags (s.upTo behind) a), behind)

def finish (st : State) : Except Fault Pattern :=
  match st.groups with
  | g :: _ => fail .groupUnclosed g.opened
  | [] =>
    match st.fault with
    | some fault => .error fault
    | none => .ok st.body

/- Every step moves on; one that did not would end the reading. -/
def readFrom (st : State) (s : Site) : Except Fault Pattern :=
  match (s.spaces st.flags.verbose).rest with
  | [] => finish st
  | c :: _ =>
    match step st c (s.spaces st.flags.verbose) with
    | .error fault => .error fault
    | .ok (later, behind) =>
      if behind.rest.length < s.rest.length then readFrom later behind else finish later
termination_by s.rest.length

def read (pattern : List Char) : Except Fault Pattern := readFrom .initial (.start pattern)

end CommentStrip.Pattern
