import CommentStrip.Proofs.Python.TokenForms

/-! Logical lines. The brackets among the operators nest, and a line break ends a logical line
exactly when no bracket is open there and the line holds more than white space and comments. -/
namespace CommentStrip.Python
open Text

/- Every bracket that opens is closed by one of its kind, and what stands between is of this sort
too. -/
inductive Nested : List Char → Prop where
  | nil : Nested []
  | pair {opening inner later} (opens : isOpening opening = true) (within : Nested inner)
      (behind : Nested later) : Nested (opening :: (inner ++ closingOf opening :: later))

def bracketsOf (tokens : List Token) : List Char :=
  tokens.flatMap fun t =>
    if t.kind = .op then t.text.filter fun c => isOpening c || isClosing c else []

def TokenKind.isLineBreak : TokenKind → Bool
  | .newline | .nl => true
  | _ => false

def TokenKind.isContent : TokenKind → Bool
  | .name | .number | .string | .op => true
  | _ => false

def HoldsContent (tokens : List Token) : Prop :=
  ∃ earlier t later, tokens = earlier ++ t :: later ∧ t.kind.isContent = true ∧
    ∀ u ∈ later, u.kind.isLineBreak = false

def turn (stack : List Char) (c : Char) : Option (List Char) :=
  if isOpening c then some (c :: stack)
  else match stack with
    | opening :: outer => if closingOf opening = c then some outer else none
    | [] => none

def openBehind (stack word : List Char) : Option (List Char) := word.foldlM turn stack

/- The word closes what is open, one after the other, with nested words between. -/
def Unwinds : (stack word : List Char) → Prop
  | [], word => Nested word
  | opening :: outer, word =>
    ∃ inner later, word = inner ++ closingOf opening :: later ∧ Nested inner ∧ Unwinds outer later

theorem openAppend (stack front back : List Char) :
    openBehind stack (front ++ back) =
      (openBehind stack front).bind fun stack => openBehind stack back := List.foldlM_append

theorem openCons (stack : List Char) (c : Char) (rest : List Char) :
    openBehind stack (c :: rest) = (turn stack c).bind fun stack => openBehind stack rest :=
  List.foldlM_cons

theorem turnOpening {c : Char} (opens : isOpening c = true) (stack : List Char) :
    turn stack c = some (c :: stack) := by
  unfold turn
  rw [if_pos opens]

theorem closingNotOpening (opening : Char) : isOpening (closingOf opening) = false := by
  unfold closingOf
  split
  · rfl
  · split <;> rfl

theorem turnClosing (opening : Char) (outer : List Char) :
    turn (opening :: outer) (closingOf opening) = some outer := by
  simp [turn, closingNotOpening]

theorem nestedOpen {word : List Char} (nested : Nested word) (stack : List Char) :
    openBehind stack word = some stack := by
  induction nested generalizing stack with
  | nil => rfl
  | @pair opening inner later opens within behind ihWithin ihBehind =>
    rw [openCons, turnOpening opens, Option.bind_some, openAppend, ihWithin, Option.bind_some,
      openCons, turnClosing, Option.bind_some, ihBehind]

theorem unwindsPair {stack inner later : List Char} {opening : Char}
    (opens : isOpening opening = true) (within : Nested inner) (unwinds : Unwinds stack later) :
    Unwinds stack (opening :: (inner ++ closingOf opening :: later)) := by
  cases stack with
  | nil => exact .pair opens within unwinds
  | cons outermost outer =>
    obtain ⟨between, behind, rfl, nested, unwinds⟩ := unwinds
    refine ⟨opening :: (inner ++ closingOf opening :: between), behind, by simp, ?_, unwinds⟩
    exact .pair opens within nested

theorem openUnwinds {stack word : List Char} (closed : openBehind stack word = some []) :
    Unwinds stack word := by
  induction word generalizing stack with
  | nil =>
    cases closed
    exact .nil
  | cons c rest ih =>
    obtain ⟨behind, turned, closed⟩ := Option.bind_eq_some_iff.mp (openCons stack c rest ▸ closed)
    by_cases opens : isOpening c = true
    · rw [turnOpening opens] at turned
      cases turned
      obtain ⟨inner, later, rfl, within, unwinds⟩ := ih closed
      exact unwindsPair opens within unwinds
    · cases stack with
      | nil => simp [turn, opens] at turned
      | cons opening outer =>
        obtain ⟨rfl, rfl⟩ : closingOf opening = c ∧ outer = behind := by simpa [turn, opens] using turned
        exact ⟨[], rest, rfl, .nil, ih closed⟩

theorem nestedIff {word : List Char} : Nested word ↔ openBehind [] word = some [] :=
  ⟨fun nested => nestedOpen nested [], openUnwinds⟩

theorem holdsContentCons (t : Token) (tokens : List Token) :
    HoldsContent (t :: tokens) ↔ HoldsContent tokens ∨
      (t.kind.isContent = true ∧ ∀ u ∈ tokens, u.kind.isLineBreak = false) := by
  constructor
  · rintro ⟨earlier, u, later, split, content, within⟩
    cases earlier with
    | nil =>
      obtain ⟨rfl, rfl⟩ := List.cons.inj split
      exact .inr ⟨content, within⟩
    | cons first earlier =>
      exact .inl ⟨earlier, u, later, (List.cons.inj split).2, content, within⟩
  · rintro (⟨earlier, u, later, rfl, content, within⟩ | ⟨content, within⟩)
    · exact ⟨t :: earlier, u, later, rfl, content, within⟩
    · exact ⟨[], t, tokens, rfl, content, within⟩

section
variable {st : State} {offset : Nat} {c : Char} {s x : List Char} {found : Next}
  (taken : next st offset c (s ++ x) = .ok found)
include taken

theorem nextOpen (whole : found.more = s.length) :
    openBehind (st.brackets.map Prod.fst) (bracketsOf [⟨found.kind, c :: s⟩]) =
      some (found.state.brackets.map Prod.fst) := by
  cases cutNext taken with
  | lineBreak first =>
    have other : breakKind st ≠ .op := by
      rcases breakKindBreak st with same | same <;> simp [same]
    simp [bracketsOf, other, openBehind]
  | opening first =>
    obtain rfl := List.length_eq_zero_iff.mp whole.symm
    simp [bracketsOf, first, openBehind, turn]
  | @closing opening opened outer first innermost closes =>
    obtain rfl := List.length_eq_zero_iff.mp whole.symm
    have noOpening : isOpening c = false := by rw [← closes, closingNotOpening]
    simp [bracketsOf, first, noOpening, openBehind, turn, innermost, closes]
  | mark first alone =>
    obtain rfl := List.length_eq_zero_iff.mp whole.symm
    simp only [isMark, Bool.not_eq_true', Bool.or_eq_false_iff] at first
    simp [bracketsOf, first, openBehind, State.withContent]
  | _ => rfl

theorem nextHolds :
    found.state.content = true ↔ found.kind.isContent = true ∨
      (found.kind.isLineBreak = false ∧ st.content = true) := by
  cases cutNext taken with
  | lineBreak first =>
    rcases breakKindBreak st with same | same <;>
      simp [same, TokenKind.isContent, TokenKind.isLineBreak]
  | _ => simp [TokenKind.isContent, TokenKind.isLineBreak, State.withContent]

theorem nextBreaks (whole : found.more = s.length) :
    (found.kind.isLineBreak = true ↔ IsLineBreak (c :: s)) ∧
      (found.kind.isLineBreak = true → found.kind = breakKind st) := by
  have ends : found.kind.isLineBreak = true → found.kind = .newline ∨ found.kind = .nl := by
    cases found.kind <;> simp [TokenKind.isLineBreak]
  have lineBreak : IsLineBreak (c :: s) →
      found = ⟨breakKind st, breakWidth (c :: (s ++ x)) - 1, { st with content := false }⟩ := by
    intro form
    have first : isBreak c = true := by
      rcases form with same | same | same <;> cases same <;> rfl
    have cut : next st offset c (s ++ x) = _ := nextCut (.lineBreak first)
    exact Except.ok.inj (taken.symm.trans cut)
  have form : found.kind.isLineBreak = true → IsLineBreak (c :: s) :=
    fun known => breakForm taken whole (ends known)
  refine ⟨⟨form, fun known => ?_⟩, fun known => ?_⟩
  · rw [lineBreak known]
    rcases breakKindBreak st with same | same <;> rw [same] <;> rfl
  · rw [lineBreak (form known)]

end

theorem lexesState {st : State} {offset : Nat} {x : List Char} {tokens : List Token}
    (lexed : Lexes st offset x tokens) {front back : List Token} {t : Token}
    (split : tokens = front ++ t :: back) :
    ∃ here : State,
      openBehind (st.brackets.map Prod.fst) (bracketsOf front) =
        some (here.brackets.map Prod.fst) ∧
      (here.content = true ↔ HoldsContent front ∨
        (st.content = true ∧ ∀ u ∈ front, u.kind.isLineBreak = false)) ∧
      (t.kind.isLineBreak = true ↔ IsLineBreak t.text) ∧
      (t.kind.isLineBreak = true → t.kind = breakKind here) := by
  induction lexed generalizing front with
  | done => simp at split
  | @token st offset c s x found later taken whole rest ih =>
    cases front with
    | nil =>
      obtain ⟨rfl, rfl⟩ := List.cons.inj split
      have empty : ¬ HoldsContent [] := by simp [HoldsContent]
      exact ⟨st, rfl, by simp [empty], nextBreaks taken whole⟩
    | cons u front =>
      obtain ⟨rfl, rfl⟩ := List.cons.inj split
      obtain ⟨here, opens, content, breaks⟩ := ih rfl
      refine ⟨here, ?_, ?_, breaks⟩
      · have step := nextOpen taken whole
        have cut : bracketsOf (⟨found.kind, c :: s⟩ :: front) =
            bracketsOf [⟨found.kind, c :: s⟩] ++ bracketsOf front := by simp [bracketsOf]
        rw [cut, openAppend, step, Option.bind_some, opens]
      · rw [content, holdsContentCons, nextHolds taken, List.forall_mem_cons]
        -- a token with content is no line break, so the cases are the same
        grind

theorem lexesOpen {st : State} {offset : Nat} {x : List Char} {tokens : List Token}
    (lexed : Lexes st offset x tokens) :
    openBehind (st.brackets.map Prod.fst) (bracketsOf tokens) = some [] := by
  induction lexed with
  | done closed => simp [closed, bracketsOf, openBehind]
  | @token st offset c s x found later taken whole rest ih =>
    have cut : bracketsOf (⟨found.kind, c :: s⟩ :: later) =
        bracketsOf [⟨found.kind, c :: s⟩] ++ bracketsOf later := by simp [bracketsOf]
    rw [cut, openAppend, nextOpen taken whole, Option.bind_some, ih]

/- The brackets of a text nest. A line break ends a logical line where they nest up to it and the
line holds content, and nowhere else. -/
theorem logicalLinesEnd {text : List Char} {tokens : List Token}
    (accepted : tokenize text = .ok tokens) :
    Nested (bracketsOf tokens) ∧
      ∀ front t back, tokens = front ++ t :: back →
        (t.kind = .newline ↔
          IsLineBreak t.text ∧ Nested (bracketsOf front) ∧ HoldsContent front) ∧
        (t.kind = .nl ↔
          IsLineBreak t.text ∧ ¬ (Nested (bracketsOf front) ∧ HoldsContent front)) := by
  have lexed := tokenizeIff.mp accepted
  refine ⟨nestedIff.mpr (lexesOpen lexed), ?_⟩
  intro front t back split
  obtain ⟨here, opens, content, breaks, kind⟩ := lexesState lexed split
  have closed : Nested (bracketsOf front) ↔ here.brackets = [] := by
    have told : openBehind [] (bracketsOf front) = some (here.brackets.map Prod.fst) := opens
    rw [nestedIff, told, Option.some.injEq, List.map_eq_nil_iff]
  have holds : HoldsContent front ↔ here.content = true := by
    rw [content]
    simp [State.initial]
  have ends : breakKind here = .newline ↔ Nested (bracketsOf front) ∧ HoldsContent front := by
    rw [closed, holds, breakKind]
    cases here.brackets <;> cases here.content <;> simp
  rw [← breaks, ← ends]
  constructor
  · constructor
    · intro same
      have known : t.kind.isLineBreak = true := by rw [same]; rfl
      exact ⟨known, (kind known).symm.trans same⟩
    · intro parts
      exact (kind parts.1).trans parts.2
  · constructor
    · intro same
      have known : t.kind.isLineBreak = true := by rw [same]; rfl
      exact ⟨known, by rw [← kind known, same]; simp⟩
    · intro parts
      rcases breakKindBreak here with same | same
      · exact absurd same parts.2
      · exact (kind parts.1).trans same

def brokenCall : List Token :=
  [⟨.name, ['f']⟩, ⟨.op, ['(']⟩, ⟨.op, ['{']⟩, ⟨.nl, ['\n']⟩, ⟨.op, ['}']⟩, ⟨.nl, ['\n']⟩,
    ⟨.op, [')']⟩, ⟨.newline, ['\n']⟩, ⟨.comment, "# c".toList⟩, ⟨.nl, ['\n']⟩]

theorem logicalLinesEndScript :
    tokenize "f(\x7b\n\x7d\n)\n# c\n".toList = .ok brokenCall ∧ Nested (bracketsOf brokenCall) ∧
      ¬ (Nested (bracketsOf (brokenCall.take 3)) ∧ HoldsContent (brokenCall.take 3)) ∧
      HoldsContent (brokenCall.take 7) ∧ ¬ HoldsContent (brokenCall.take 9) := by
  have accepted : tokenize "f(\x7b\n\x7d\n)\n# c\n".toList = .ok brokenCall := by
    with_unfolding_all rfl
  obtain ⟨nested, lines⟩ := logicalLinesEnd accepted
  have inside := (lines (brokenCall.take 3) ⟨.nl, ['\n']⟩ (brokenCall.drop 4) rfl).2.mp rfl
  have ending := (lines (brokenCall.take 7) ⟨.newline, ['\n']⟩ (brokenCall.drop 8) rfl).1.mp rfl
  have behind := (lines (brokenCall.take 9) ⟨.nl, ['\n']⟩ (brokenCall.drop 10) rfl).2.mp rfl
  exact ⟨accepted, nested, inside.2, ending.2.2, fun holds => behind.2 ⟨ending.2.1, holds⟩⟩

end CommentStrip.Python
