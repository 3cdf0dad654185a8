import CommentStrip.Proofs.Python.LogicalLines
import CommentStrip.Proofs.Python.StandAlone

/-! What a text is refused for. Errors name places of the text, and what an error says stands at
the place that it names: at any depth of fields and literals, and at the end of the text. -/
namespace CommentStrip.Python
open Unicode Text

inductive CutsOff (text : List Char) : List Token → State → (here : List Char) → Prop where
  | start : CutsOff text [] .initial text
  | token {tokens st c s x found} (cuts : CutsOff text tokens st (c :: (s ++ x)))
      (taken : next st (byteLength (textOf tokens)) c (s ++ x) = .ok found)
      (whole : found.more = s.length) :
      CutsOff text (tokens ++ [⟨found.kind, c :: s⟩]) found.state x

inductive LiteralAt (text : List Char) (triple : Bool) : (offset : Nat) → Prop where
  | begins {front word quote behind} (named : word ≠ [] → isStringPrefix word = true)
      (isOne : isQuote quote = true)
      (split : text = front ++ (word ++ (delimiter quote triple ++ behind))) :
      LiteralAt text triple (byteLength front)

/- What stands where an error points. The brackets opened behind one that is never closed are closed
themselves. -/
inductive PointsAt (text : List Char) : TokenError → Prop where
  | unterminatedString {offset} (literal : LiteralAt text false offset) :
      PointsAt text (.unterminatedString offset)
  | unterminatedTriple {offset} (literal : LiteralAt text true offset) :
      PointsAt text (.unterminatedTriple offset)
  | unbalanced {front found behind} (split : text = front ++ found :: behind)
      (closes : isClosing found = true) :
      PointsAt text (.unbalancedBracket (byteLength front) found)
  | unclosed {before opening later st} (opens : isOpening opening = true)
      (cuts : CutsOff text (before ++ ⟨.op, [opening]⟩ :: later) st [])
      (nested : Nested (bracketsOf later)) :
      PointsAt text (.unclosedBrackets (byteLength (textOf before)))
  | stray {front behind} (split : text = front ++ '\\' :: behind)
      (noBreak : ∀ c, behind.head? = some c → isBreak c = false) :
      PointsAt text (.strayBackslash (byteLength front))
  | comment {front behind} (split : text = front ++ '#' :: behind) :
      PointsAt text (.commentInField (byteLength front))

theorem cutsText {text here : List Char} {tokens : List Token} {st : State}
    (cuts : CutsOff text tokens st here) : text = textOf tokens ++ here := by
  induction cuts with
  | start => rfl
  | @token tokens st c s x found cuts taken whole ih =>
    rw [ih, textOfAppend, List.append_assoc]
    simp [textOf]

theorem literalAtOne {text : List Char} {triple : Bool} {offset : Nat}
    (literal : LiteralAt text triple offset) : LiteralAt text false offset := by
  obtain ⟨named, isOne, split⟩ := literal
  rename_i front word quote behind
  obtain ⟨mark, marked⟩ := delimiterFirst quote triple
  rw [marked] at split
  exact .begins named isOne split

def Context.Placed (text : List Char) : Context → Prop
  | .body _ triple _ start => LiteralAt text triple start
  | .field _ start => LiteralAt text false start
  | .spec start => LiteralAt text false start

def AllPlaced (text : List Char) (stack : List Context) : Prop := ∀ k ∈ stack, k.Placed text

section
variable {text front rest : List Char} {c : Char} {context : Context}

theorem unterminatedPoints (placed : context.Placed text) :
    PointsAt text context.unterminated := by
  cases context with
  | body quote triple affix start =>
    cases triple with
    | true => exact .unterminatedTriple placed
    | false => exact .unterminatedString placed
  | field depth start => exact .unterminatedString placed
  | spec start => exact .unterminatedString placed

theorem openPlaced {word behind : List Char} {quote : Char}
    (named : word ≠ [] → isStringPrefix word = true) (isOne : isQuote quote = true)
    (split : text = front ++ (word ++ quote :: behind)) (affix : Affix) :
    (openLiteral affix (byteLength front) quote behind).2.Placed text := by
  obtain ⟨body, marked⟩ := markSplit quote behind
  exact .begins named isOne (by rw [← marked, split])

theorem placedStay {below : List Context} (stays : context.Placed text)
    (others : AllPlaced text below) : AllPlaced text (context :: below) :=
  List.forall_mem_cons.mpr ⟨stays, others⟩

theorem bodyFails {quote : Char} {triple : Bool} {affix : Affix} {start : Nat} {e : TokenError}
    (failed : bodyMove quote triple affix start c rest = .error e) :
    e = (Context.body quote triple affix start).unterminated := by
  simp only [bodyMove] at failed
  split at failed
  · exact (Except.error.inj failed).symm
  · split at failed
    · split at failed <;> cases failed
      rfl
    · repeat' split at failed
      all_goals cases failed

theorem bodyKeeps {quote : Char} {triple : Bool} {affix : Affix} {start : Nat} {move : Move}
    (placed : (Context.body quote triple affix start).Placed text)
    (moved : bodyMove quote triple affix start c rest = .ok move) {below : List Context}
    (others : AllPlaced text below) : AllPlaced text (move.apply below) := by
  have stays := placedStay placed others
  have field : (Context.field 0 start).Placed text := literalAtOne placed
  simp only [bodyMove] at moved
  split at moved
  · cases moved
  · repeat' split at moved
    all_goals cases moved
    all_goals first | exact stays | exact others | exact placedStay field stays

theorem fieldFails {depth start offset : Nat} {e : TokenError}
    (failed : fieldMove depth start offset c rest = .error e) :
    isClosing c = true ∧ e = .unbalancedBracket offset c ∨
      c = '#' ∧ e = .commentInField offset := by
  simp only [fieldMove] at failed
  repeat' split at failed
  all_goals cases failed
  · exact .inl ⟨by assumption, rfl⟩
  · exact .inr ⟨by assumption, rfl⟩

theorem wordSplit (c : Char) (rest : List Char) : c :: rest =
    (c :: rest.takeWhile isNameChar) ++ rest.drop (rest.takeWhile isNameChar).length := by
  rw [List.cons_append, List.prefix_iff_eq_append.mp (List.takeWhile_prefix _)]

theorem fieldKeeps {depth start : Nat} {move : Move} (split : text = front ++ c :: rest)
    (placed : (Context.field depth start).Placed text)
    (moved : fieldMove depth start (byteLength front) c rest = .ok move) {below : List Context}
    (others : AllPlaced text below) : AllPlaced text (move.apply below) := by
  have stays := placedStay placed others
  by_cases quote : isQuote c = true
  · rw [fieldQuote quote] at moved
    cases moved
    have noWord : ([] : List Char) ≠ [] → isStringPrefix [] = true :=
      fun filled => absurd rfl filled
    exact placedStay (openPlaced noWord quote split .plain) stays
  by_cases name : isNameChar c = true
  · have cut := wordSplit c rest
    rw [fieldWord name] at moved
    split at moved
    · rename_i mark behind ahead
      rw [ahead] at cut
      simp only at moved
      split at moved <;> cases moved
      · rename_i prefixed
        simp only [Bool.and_eq_true] at prefixed
        have inner := openPlaced (fun _ => prefixed.2) prefixed.1 (split.trans (by rw [cut]))
        exact placedStay (inner _) stays
      · exact stays
    · cases moved
      exact stays
  · simp only [fieldMove, if_neg quote, if_neg name] at moved
    -- what is left stays in the field at some depth, goes on to its spec, or leaves it
    have inField (depth : Nat) : AllPlaced text (.field depth start :: below) :=
      placedStay placed others
    have inSpec : AllPlaced text (.spec start :: below) := placedStay placed others
    repeat' split at moved
    all_goals cases moved
    all_goals first | exact inField _ | exact inSpec | exact others

theorem specKeeps {start : Nat} {move : Move} (placed : (Context.spec start).Placed text)
    (moved : specMove start c = .ok move) {below : List Context}
    (others : AllPlaced text below) : AllPlaced text (move.apply below) := by
  have stays := placedStay placed others
  have inner : (Context.field 0 start).Placed text := placed
  simp only [specMove] at moved
  repeat' split at moved
  all_goals cases moved
  · exact placedStay inner stays
  · exact others
  · exact stays

theorem specFails {start : Nat} {e : TokenError} (failed : specMove start c = .error e) :
    e = (Context.spec start).unterminated := by
  simp only [specMove] at failed
  repeat' split at failed
  all_goals cases failed
  rfl

theorem moveFails {e : TokenError} (split : text = front ++ c :: rest)
    (placed : context.Placed text)
    (failed : context.move (byteLength front) c rest = .error e) : PointsAt text e := by
  cases context with
  | body quote triple affix start =>
    rw [bodyFails failed]
    exact unterminatedPoints placed
  | field depth start =>
    rcases fieldFails failed with ⟨closes, rfl⟩ | ⟨rfl, rfl⟩
    · exact .unbalanced split closes
    · exact .comment split
  | spec start =>
    rw [specFails failed]
    exact unterminatedPoints placed

theorem moveKeeps {move : Move} (split : text = front ++ c :: rest) (placed : context.Placed text)
    (moved : context.move (byteLength front) c rest = .ok move) {below : List Context}
    (others : AllPlaced text below) : AllPlaced text (move.apply below) := by
  cases context with
  | body quote triple affix start => exact bodyKeeps placed moved others
  | field depth start => exact fieldKeeps split placed moved others
  | spec start => exact specKeeps placed moved others

/- The induction is on the moves; what is open is always placed in the text. -/
theorem closeAllFails {here : List Char} {stack : List Context} {offset : Nat} {e : TokenError}
    (failed : closeAll offset stack here = .error e) (split : text = front ++ here)
    (passed : offset = byteLength front) (placed : AllPlaced text stack) :
    PointsAt text e := by
  fun_induction closeAll offset stack here generalizing front with
  | case1 => cases failed
  | case2 offset context below =>
    cases failed
    exact unterminatedPoints (placed context List.mem_cons_self)
  | case3 offset context below c rest e' moved =>
    cases failed
    subst passed
    exact moveFails split (placed context List.mem_cons_self) moved
  | case4 offset context below c rest move moved _ e' later =>
    rename_i ih
    cases failed
    subst passed
    obtain ⟨here, others⟩ := List.forall_mem_cons.mp placed
    have cut : text = (front ++ c :: rest.take move.more) ++ rest.drop move.more := by
      rw [split, List.append_assoc, List.cons_append, List.take_append_drop]
    exact ih later cut (byteLengthAppend _ _).symm (moveKeeps split here moved others)
  | case5 => cases failed

theorem mapFails {α β : Type} {result : Except TokenError α} {f : α → β} {e : TokenError}
    (failed : result.map f = .error e) : result = .error e := by
  cases result with
  | error _ => exact congrArg _ (Except.error.inj failed)
  | ok _ => cases failed

theorem literalFails {st : State} {affix : Affix} {word behind : List Char} {quote : Char}
    {e : TokenError} (named : word ≠ [] → isStringPrefix word = true) (isOne : isQuote quote = true)
    (split : text = front ++ (word ++ quote :: behind))
    (failed : literalNext st affix (byteLength front) word (quote :: behind) = .error e) :
    PointsAt text e := by
  have inside := openPlaced named isOne split affix
  have closed := mapFails failed
  rw [literalWidth] at closed
  generalize openLiteral affix (byteLength front) quote behind = opened at inside closed
  obtain ⟨more, context⟩ := opened
  have cut : text = (front ++ (word ++ quote :: behind.take more)) ++ behind.drop more := by
    rw [split, List.append_assoc, List.append_assoc, List.cons_append, List.take_append_drop]
  refine closeAllFails (mapFails closed) cut ?_ (List.forall_mem_singleton.mpr inside)
  rw [byteLengthAppend, byteLengthAppend, Nat.add_assoc]

theorem wordFails {st : State} {e : TokenError} (split : text = front ++ c :: rest)
    (failed : wordNext st (byteLength front) c rest = .error e) : PointsAt text e := by
  unfold wordNext at failed
  split at failed
  · rename_i quoted
    simp only [prefixesLiteral, Bool.and_eq_true] at quoted
    obtain ⟨ahead, isPrefix⟩ := quoted
    have cut := wordSplit c rest
    unfold behindWord at ahead failed
    cases behind : rest.drop (rest.takeWhile isNameChar).length with
    | nil =>
      rw [behind] at ahead
      cases ahead
    | cons quote later =>
      rw [behind] at ahead failed cut
      exact literalFails (fun _ => isPrefix) ahead (split.trans (by rw [cut]; rfl)) failed
  · cases failed

theorem closingFails {st : State} {offset : Nat} {e : TokenError}
    (failed : closingNext st offset c = .error e) : e = .unbalancedBracket offset c := by
  unfold closingNext at failed
  repeat' split at failed
  all_goals cases failed
  all_goals rfl

theorem strayBreak (stray : breakWidth rest = 0) :
    ∀ c, rest.head? = some c → isBreak c = false := by
  intro c first
  cases rest with
  | nil => cases first
  | cons d later =>
    obtain rfl := Option.some.inj first
    rw [Bool.eq_false_iff]
    intro lineBreak
    have width := breakPositive lineBreak later
    omega

theorem nextFails {st : State} {e : TokenError} (split : text = front ++ c :: rest)
    (failed : next st (byteLength front) c rest = .error e) : PointsAt text e := by
  rw [nextSteps] at failed
  repeat' split at failed
  any_goals cases failed
  · rename_i backslash stray
    subst backslash
    exact .stray split (strayBreak stray)
  · exact literalFails (fun filled => absurd rfl filled) (by assumption) split failed
  · exact wordFails split failed
  · rename_i closes
    rw [closingFails failed]
    exact .unbalanced split closes

end

theorem nestedAppend {front back : List Char} (first : Nested front) (second : Nested back) :
    Nested (front ++ back) := by
  rw [nestedIff] at second ⊢
  rw [openAppend, nestedOpen first, Option.bind_some, second]

theorem bracketsAppend (front back : List Token) :
    bracketsOf (front ++ back) = bracketsOf front ++ bracketsOf back := List.flatMap_append

/- The open brackets are among the tokens, the innermost last. What stands behind one of them, up to
the next one inside, nests. -/
def OpenAmong : List (Char × Nat) → List Token → Prop
  | [], _ => True
  | (opening, offset) :: outer, tokens => ∃ before later,
    tokens = before ++ ⟨.op, [opening]⟩ :: later ∧ offset = byteLength (textOf before) ∧
      isOpening opening = true ∧ Nested (bracketsOf later) ∧ OpenAmong outer before

theorem openFurther {brackets : List (Char × Nat)} {tokens more : List Token}
    (among : OpenAmong brackets tokens) (nested : Nested (bracketsOf more)) :
    OpenAmong brackets (tokens ++ more) := by
  cases brackets with
  | nil => trivial
  | cons innermost outer =>
    obtain ⟨before, later, rfl, place, opens, inner, outside⟩ := among
    refine ⟨before, later ++ more, by simp, place, opens, ?_, outside⟩
    rw [bracketsAppend]
    exact nestedAppend inner nested

theorem bracketAlone {c : Char} (bracket : (isOpening c || isClosing c) = true) :
    bracketsOf [⟨.op, [c]⟩] = [c] := by
  simp [bracketsOf, bracket]

theorem nextOpens {tokens : List Token} {st : State} {c : Char} {s x : List Char} {found : Next}
    (among : OpenAmong st.brackets tokens)
    (taken : next st (byteLength (textOf tokens)) c (s ++ x) = .ok found)
    (whole : found.more = s.length) :
    OpenAmong found.state.brackets (tokens ++ [⟨found.kind, c :: s⟩]) := by
  have silent {kind : TokenKind} (other : kind ≠ .op) : bracketsOf [⟨kind, c :: s⟩] = [] := by
    simp [bracketsOf, other]
  have still {kind : TokenKind} (none : bracketsOf [⟨kind, c :: s⟩] = []) :
      OpenAmong st.brackets (tokens ++ [⟨kind, c :: s⟩]) := openFurther among (none ▸ .nil)
  cases cutNext taken with
  | opening first =>
    obtain rfl := List.length_eq_zero_iff.mp whole.symm
    exact ⟨tokens, [], rfl, rfl, first, .nil, among⟩
  | @closing opening opened outer first innermost closes =>
    obtain rfl := List.length_eq_zero_iff.mp whole.symm
    rw [innermost] at among
    obtain ⟨before, later, rfl, -, opens, inner, outside⟩ := among
    rw [List.append_assoc]
    refine openFurther outside ?_
    have pair : bracketsOf (⟨.op, [opening]⟩ :: later ++ [⟨.op, [c]⟩]) =
        opening :: (bracketsOf later ++ closingOf opening :: []) := by
      rw [← List.singleton_append, bracketsAppend, bracketsAppend, bracketAlone (by simp [opens]),
        bracketAlone (by simp [first]), closes, List.append_assoc]
      rfl
    rw [pair]
    exact .pair opens inner .nil
  | lineBreak first =>
    refine still (silent ?_)
    rcases breakKindBreak st with same | same <;> simp [same]
  | mark first alone =>
    refine still ?_
    obtain rfl := List.length_eq_zero_iff.mp whole.symm
    have plain := markNoBracket first
    simp [bracketsOf, plain]
  | _ => exact still (silent (by simp))

theorem cutsOpen {text here : List Char} {tokens : List Token} {st : State}
    (cuts : CutsOff text tokens st here) : OpenAmong st.brackets tokens := by
  induction cuts with
  | start => trivial
  | token cuts taken whole ih => exact nextOpens ih taken whole

theorem cutsFail {text here : List Char} {tokens : List Token} {st : State} {offset : Nat}
    {e : TokenError} (cuts : CutsOff text tokens st here)
    (passed : offset = byteLength (textOf tokens)) (failed : tokensFrom st offset here = .error e) :
    PointsAt text e := by
  fun_induction tokensFrom st offset here generalizing tokens with
  | case1 st offset innermost opened outer brackets =>
    cases failed
    have among := cutsOpen cuts
    rw [brackets] at among
    obtain ⟨before, later, rfl, rfl, opens, nested, -⟩ := among
    exact .unclosed opens cuts nested
  | case2 => cases failed
  | case3 st offset c rest e' refused =>
    cases failed
    subst passed
    exact nextFails (cutsText cuts) refused
  | case4 st offset c rest found taken piece e' later =>
    rename_i ih
    cases failed
    subst passed
    have within := cutWithin (cutNext taken)
    have split : c :: rest = c :: (rest.take found.more ++ rest.drop found.more) := by
      rw [List.take_append_drop]
    rw [split] at cuts
    have more := CutsOff.token cuts (by rw [List.take_append_drop]; exact taken)
      (by rw [List.length_take]; omega)
    refine ih more ?_ later
    rw [textOfAppend, byteLengthAppend]
    simp [textOf, piece]
  | case5 => cases failed

def BeginsAt (text : List Char) (offset : Nat) : Prop :=
  ∃ front c behind, text = front ++ c :: behind ∧ offset = byteLength front

theorem beginsBelow {text : List Char} {offset : Nat} (begins : BeginsAt text offset) :
    offset < byteLength text := by
  obtain ⟨front, c, behind, rfl, rfl⟩ := begins
  have filled : 0 < byteLength (c :: behind) := byteLengthPositive (List.cons_ne_nil c behind)
  rw [byteLengthAppend]
  omega

theorem literalBegins {text : List Char} {triple : Bool} {offset : Nat}
    (literal : LiteralAt text triple offset) : BeginsAt text offset := by
  obtain ⟨-, -, split⟩ := literal
  rename_i front word quote behind
  obtain ⟨mark, marked⟩ := delimiterFirst quote triple
  cases word with
  | nil => exact ⟨front, quote, mark ++ behind, by rw [split, marked]; rfl, rfl⟩
  | cons c word => exact ⟨front, c, word ++ (delimiter quote triple ++ behind), split, rfl⟩

theorem pointsBegins {text : List Char} {e : TokenError} (points : PointsAt text e) :
    BeginsAt text e.offset := by
  cases points with
  | unterminatedString literal => exact literalBegins literal
  | unterminatedTriple literal => exact literalBegins literal
  | @unbalanced front found behind split _ => exact ⟨front, found, behind, split, rfl⟩
  | @unclosed before opening later _ _ cuts _ =>
    refine ⟨textOf before, opening, textOf later, ?_, rfl⟩
    rw [cutsText cuts, textOfAppend, textOfCons, List.append_nil]
    rfl
  | @stray front behind split _ => exact ⟨front, '\\', behind, split, rfl⟩
  | @comment front behind split => exact ⟨front, '#', behind, split, rfl⟩

/- A refused text is refused at a place of its own, where a character begins, and for what stands
there. -/
theorem errorsPointAtCause {text : List Char} {e : TokenError}
    (refused : tokenize text = .error e) :
    e.offset < byteLength text ∧ BeginsAt text e.offset ∧ PointsAt text e := by
  have points : PointsAt text e := cutsFail .start rfl refused
  have begins := pointsBegins points
  exact ⟨beginsBelow begins, begins, points⟩

theorem errorsPointAtCauseInside :
    (tokenize "é=f'\x7brb\"a".toList = .error (.unterminatedString 6) ∧
      PointsAt "é=f'\x7brb\"a".toList (.unterminatedString 6)) ∧
    tokenize "é=([1],\n".toList = .error (.unclosedBrackets 3) ∧
      PointsAt "é=([1],\n".toList (.unclosedBrackets 3) := by
  have inField : tokenize "é=f'\x7brb\"a".toList = .error (.unterminatedString 6) := by
    with_unfolding_all rfl
  have unclosed : tokenize "é=([1],\n".toList = .error (.unclosedBrackets 3) := by
    with_unfolding_all rfl
  exact ⟨⟨inField, (errorsPointAtCause inField).2.2⟩, unclosed, (errorsPointAtCause unclosed).2.2⟩

end CommentStrip.Python
