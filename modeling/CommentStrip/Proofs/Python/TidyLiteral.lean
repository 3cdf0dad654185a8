import CommentStrip.Proofs.Python.Closing
import CommentStrip.Proofs.TidyPass

/-! Tidying makes a literal of a literal. Whatever is open at a place of a text is open at the
place of the tidied text that it becomes: white space and line breaks change nothing, and where an
escape takes a character that goes, it takes the line break that comes instead. -/
namespace CommentStrip.Python
open Unicode Text Whitespace

section
variable {limit : Option Nat} {ending : LineEnding}

/- What a move passes of a text becomes `front` in the tidied text, and what is open is closed
there where it is closed behind the move. -/
def Follows (limit : Option Nat) (ending : LineEnding) (context : Context) (below : List Context)
    (row : Row) (c : Char) (rest : List Char) (move : Move) : Prop :=
  ∃ front next, tidyFrom limit ending row (c :: rest) =
      front ++ tidyFrom limit ending next (rest.drop move.more) ∧
    (next = .filled ∨ move.apply [] ≠ []) ∧
    ∀ m, Closes (move.apply below) (tidyFrom limit ending next (rest.drop move.more)) m →
      Closes (context :: below) (tidyFrom limit ending row (c :: rest)) (front.length + m)

variable {context : Context} {below : List Context} {row : Row} {c : Char} {rest : List Char}
  {move : Move} {n : Nat}

theorem followsPassed {front : List Char} {other : Move}
    (passes : tidyFrom limit ending row (c :: rest) =
      c :: (front ++ tidyFrom limit ending .filled (rest.drop move.more)))
    (moved : context.move 0 c (front ++ tidyFrom limit ending .filled (rest.drop move.more)) =
      .ok other)
    (long : other.more = front.length) (same : other.apply below = move.apply below) :
    Follows limit ending context below row c rest move := by
  refine ⟨c :: front, .filled, passes, .inl rfl, fun m later => ?_⟩
  rw [passes]
  rw [← same] at later
  exact closesPassed moved long later

theorem followsSolid (solid : isWhite c = false) (single : move.more = 0)
    (moved : context.move 0 c (tidyFrom limit ending .filled rest) = .ok move) :
    Follows limit ending context below row c rest move := by
  refine @followsPassed limit ending context below row c rest move [] move ?_ ?_ single rfl
  · rw [single]
    exact tidySolid solid rest
  · rwa [single]

theorem followsWhite (quoted : context.Quoted) (white : isWhite c = true)
    (stays : StaysOver context c) (later : Closes (context :: below) rest n) :
    Follows limit ending context below row c rest (.stay 0 context) := by
  by_cases feed : c = '\n'
  · subst feed
    have more := closesSolid quoted later
    have each := breakStays quoted rfl (stays rest)
    refine ⟨row.close limit ending, row.next, tidyFeed more, .inr (List.cons_ne_nil _ _),
      fun m later => ?_⟩
    rw [tidyFeed more]
    exact closesOver (fun b inside => each b (row.closeBreaks limit ending b inside)) later
  · cases ahead : blankAhead rest with
    | true =>
      refine ⟨[], row, tidyDropped feed white ahead, .inr (List.cons_ne_nil _ _),
        fun m later => ?_⟩
      rw [tidyDropped feed white ahead, List.length_nil, Nat.zero_add]
      exact later
    | false =>
      exact @followsPassed limit ending context below row c rest (.stay 0 context) []
        (.stay 0 context) (tidyKept feed fun _ => ahead) (stays _) rfl rfl

theorem isTripleTidied {quote : Char} (isOne : isQuote quote = true) (text : List Char) :
    isTriple quote (quote :: tidyFrom limit ending .filled text) =
      isTriple quote (quote :: text) := by
  have each : ∀ c ∈ [quote, quote], isWhite c = false := by simp [quoteSolid isOne]
  have same := @tidyStarts limit ending _ each text
  simpa [isTriple, startsWith, after] using same

section
variable {affix : Affix} {more : Nat}

theorem escapeUnnamed (unnamed : startsWith ['N', '{'] rest = false) :
    escapeWidth affix rest =
      if startsWith ['\r', '\n'] rest then some 2 else some (min 1 rest.length) := by
  rw [escapeWidth, unnamed, Bool.and_false, if_neg Bool.false_ne_true]

theorem escapeEnding (ending : LineEnding) (rest : List Char) :
    escapeWidth affix (ending.text ++ rest) = some ending.text.length := by
  cases ending with
  | lf => rw [escapeUnnamed rfl]; simp [LineEnding.text, startsWith, after]
  | crlf => rw [escapeUnnamed rfl]; simp [LineEnding.text, startsWith, after]

theorem nameSolid : ∀ c ∈ ['N', '{'], isWhite c = false :=
  List.forall_mem_cons.mpr ⟨by decide, List.forall_mem_singleton.mpr (by decide)⟩

/- What an escape takes is taken of the tidied text, or goes in front of a line break; then the
escape takes the break. -/
def Escapes (limit : Option Nat) (ending : LineEnding) (affix : Affix) (rest : List Char)
    (more : Nat) : Prop :=
  ∃ front back next, tidyFrom limit ending .filled rest = front ++ back ∧
    escapeWidth affix (front ++ back) = some front.length ∧
    (back = tidyFrom limit ending next (rest.drop more) ∨
      (∀ c ∈ front, isBreak c = true) ∧
        front ++ back = tidyFrom limit ending next (rest.drop more))

theorem escapesNamed (named : (affix.formatted && !affix.raw && startsWith ['N', '{'] rest) = true)
    (taken : through ['}'] rest = some more) : Escapes limit ending affix rest more := by
  have namedToo : (affix.formatted && !affix.raw &&
      startsWith ['N', '{'] (tidyFrom limit ending .filled rest)) = true := by
    rwa [tidyStarts nameSolid]
  obtain ⟨name, behind, rfl, other, rfl⟩ := throughOne.mp taken
  obtain ⟨tidied, known, same⟩ := @tidySplit limit ending .filled name '}' (by decide)
  have otherToo : '}' ∉ tidied := fun inside => (known _ inside).elim other (by decide)
  have whole : tidyFrom limit ending .filled (name ++ '}' :: behind) =
      tidied ++ ['}'] ++ tidyFrom limit ending .filled behind := by
    rw [same, List.append_assoc]
    rfl
  refine ⟨tidied ++ ['}'], _, .filled, whole, ?_, .inl (by simp)⟩
  rw [← whole, escapeWidth, if_pos namedToo, same,
    throughOne.mpr ⟨tidied, _, rfl, otherToo, rfl⟩]
  simp

theorem escapesFeed (solid : (rest.drop more).all isBreak = false)
    (same : tidyFrom limit ending .filled rest =
      tidyFrom limit ending .filled ('\n' :: rest.drop more)) :
    Escapes limit ending affix rest more :=
  ⟨ending.text, _, .blank 0, same.trans (tidyFeed solid), escapeEnding ending _, .inl rfl⟩

theorem escapesGone (other : c ≠ '\n') (white : isWhite c = true) (ahead : blankAhead rest = true) :
    Escapes limit ending affix (c :: rest) 1 := by
  obtain ⟨later, same⟩ := @tidyAhead limit ending .filled rest ahead
  exact ⟨ending.text, later, .filled, (tidyDropped other white ahead).trans same,
    escapeEnding ending later, .inr ⟨endingBreak ending, same.symm⟩⟩

theorem escapesKept (other : c ≠ '\n') (kept : isWhite c = true → blankAhead rest = false)
    (unnamed : (affix.formatted && !affix.raw && startsWith ['N', '{'] (c :: rest)) = false) :
    Escapes limit ending affix (c :: rest) 1 := by
  have stays := @tidyKept limit ending .filled c rest other kept
  have unnamedToo : (affix.formatted && !affix.raw &&
      startsWith ['N', '{'] (c :: tidyFrom limit ending .filled rest)) = false := by
    rwa [← stays, tidyStarts nameSolid]
  have unpaired : startsWith ['\r', '\n'] (c :: tidyFrom limit ending .filled rest) = false := by
    rw [Bool.eq_false_iff]
    intro starts
    obtain ⟨later, same⟩ := startsWithIff.mp starts
    obtain ⟨rfl, begins⟩ := List.cons.inj same
    obtain ⟨d, text, whole, noFeed, head⟩ := @tidyHead limit ending .filled rest (kept (by decide))
    rw [begins] at head
    exact noFeed (List.cons.inj head).1.symm
  refine ⟨[c], _, .filled, stays, ?_, .inl rfl⟩
  rw [List.singleton_append, escapeWidth, unnamedToo, unpaired]
  simp

theorem escapesTidied (taken : escapeWidth affix rest = some more)
    (solid : (rest.drop more).all isBreak = false) : Escapes limit ending affix rest more := by
  rw [escapeWidth] at taken
  split at taken
  · rename_i named
    exact escapesNamed named taken
  rename_i unnamed
  split at taken
  · rename_i paired
    cases taken
    obtain ⟨behind, rfl⟩ := startsWithIff.mp paired
    exact escapesFeed solid (tidyReturnFeed behind)
  cases rest with
  | nil => simp at solid
  | cons d behind =>
    obtain rfl : more = 1 := by simpa using taken.symm
    by_cases lineFeed : d = '\n'
    · subst lineFeed
      exact escapesFeed solid rfl
    by_cases gone : isWhite d = true ∧ blankAhead behind = true
    · exact escapesGone lineFeed gone.1 gone.2
    · refine escapesKept lineFeed (fun white => ?_) (by simpa using unnamed)
      rw [Bool.eq_false_iff]
      exact fun ahead => gone ⟨white, ahead⟩

variable {quote : Char} {triple : Bool} {start : Nat}

theorem followsEscape (isOne : isQuote quote = true)
    (taken : escapeWidth affix rest = some more)
    (later : Closes (.body quote triple affix start :: below) (rest.drop more) n) :
    Follows limit ending (.body quote triple affix start) below row '\\' rest
      (.stay more (.body quote triple affix start)) := by
  have quoted : (Context.body quote triple affix start).Quoted := isOne
  have moved {text : List Char} {width : Nat} (taken : escapeWidth affix text = some width) :
      (Context.body quote triple affix start).move 0 '\\' text =
        .ok (.stay width (.body quote triple affix start)) := by
    have sameLine : (isBreak '\\' && !triple) = false := rfl
    simp [Context.move, bodyMove, sameLine, taken]
  obtain ⟨front, back, next, same, width, ends⟩ :=
    @escapesTidied limit ending rest affix more taken (closesSolid quoted later)
  have whole := @tidySolid limit ending row '\\' (by decide) rest
  rw [same] at whole
  rcases ends with rfl | ⟨breaks, ends⟩
  · refine ⟨'\\' :: front, next, whole, .inr (List.cons_ne_nil _ _), fun m behind => ?_⟩
    rw [whole]
    exact closesPassed (moved width) rfl behind
  · refine ⟨['\\'], next, by rw [whole, ends]; rfl, .inr (List.cons_ne_nil _ _), fun m behind => ?_⟩
    change Closes _ (tidyFrom limit ending next (rest.drop more)) m at behind
    rw [← ends] at behind
    obtain ⟨k, rfl, shut⟩ := closesBreaks quoted breaks behind
    have step := closesPassed (moved width) rfl shut
    have count : ['\\'].length + (front.length + k) = ('\\' :: front).length + k := by
      simp only [List.length_cons, List.length_nil]
      omega
    rwa [whole, count]

theorem followsBrace (formatted : affix.formatted = true)
    (moved : bodyMove quote triple affix start '{' rest = .ok move) :
    Follows limit ending (.body quote triple affix start) below row '{' rest move := by
  have moves (text : List Char) : bodyMove quote triple affix start '{' text =
      if text.head? = some '{' then .ok (.stay 1 (.body quote triple affix start))
      else .ok (.enter 0 (.body quote triple affix start) (.field 0 start)) := by
    simp [bodyMove, isBreak, formatted]
  have first := @tidyFirst limit ending '{' (by decide) rest
  rw [moves] at moved
  split at moved
  · rename_i double
    cases moved
    obtain ⟨behind, rfl⟩ := List.head?_eq_some_iff.mp double
    refine @followsPassed limit ending _ below row '{' _ _ ['{'] _ ?_ ((moves _).trans rfl) rfl rfl
    rw [tidySolid (by decide), tidySolid (by decide)]
    rfl
  · rename_i single
    cases moved
    refine followsSolid (by decide) rfl ?_
    rw [Context.move, moves, if_neg (mt first.mp single)]

theorem followsQuote (isOne : isQuote quote = true)
    (moved : bodyMove quote triple affix start quote rest = .ok move) :
    Follows limit ending (.body quote triple affix start) below row quote rest move := by
  have solid := quoteSolid isOne
  have moves (text : List Char) : bodyMove quote triple affix start quote text =
      if triple then
        if isTriple quote (quote :: text) then .ok (.leave 2)
        else .ok (.stay 0 (.body quote triple affix start))
      else .ok (.leave 0) := by
    rcases quoteOne isOne with rfl | rfl <;> simp [bodyMove, isBreak]
  rw [moves] at moved
  split at moved
  · rename_i long
    split at moved
    · rename_i three
      cases moved
      obtain ⟨behind, begins⟩ := delimiterOpens three
      obtain rfl : rest = quote :: quote :: behind := (List.cons.inj begins).2
      refine @followsPassed limit ending _ below row quote _ _ [quote, quote] _ ?_ ?_ rfl rfl
      · rw [tidySolid solid, tidySolid solid, tidySolid solid]
        rfl
      · rw [Context.move, moves, if_pos long]
        exact if_pos (startsWithIff.mpr ⟨_, rfl⟩)
    · rename_i fewer
      cases moved
      refine followsSolid solid rfl ?_
      rw [Context.move, moves, if_pos long, isTripleTidied isOne, if_neg fewer]
  · rename_i short
    cases moved
    refine followsSolid solid rfl ?_
    rw [Context.move, moves, if_neg short]

theorem followsBody (isOne : isQuote quote = true)
    (moved : bodyMove quote triple affix start c rest = .ok move)
    (later : Closes (move.apply below) (rest.drop move.more) n) :
    Follows limit ending (.body quote triple affix start) below row c rest move := by
  by_cases brace : c = '{' ∧ affix.formatted = true
  · obtain ⟨rfl, formatted⟩ := brace
    exact followsBrace formatted moved
  by_cases closing : c = quote
  · subst closing
    exact followsQuote isOne moved
  simp only [bodyMove, if_neg brace, if_neg closing] at moved
  split at moved
  · cases moved
  rename_i sameLine
  split at moved
  · rename_i escape
    subst escape
    split at moved <;> cases moved
    rename_i taken
    exact followsEscape isOne taken later
  · rename_i plain
    cases moved
    cases white : isWhite c with
    | false =>
      refine followsSolid white rfl ?_
      simp only [Context.move, bodyMove, if_neg sameLine, if_neg plain, if_neg brace,
        if_neg closing]
    | true => exact followsWhite isOne white (bodyStays isOne white (by simpa using sameLine)) later

end

theorem openTidied {affix : Affix} {start : Nat} {quote : Char} (isOne : isQuote quote = true)
    (text : List Char) :
    ∃ front, tidyFrom limit ending .filled text =
        front ++ tidyFrom limit ending .filled (text.drop (openLiteral affix start quote text).1) ∧
      openLiteral affix start quote (tidyFrom limit ending .filled text) =
        openLiteral affix start quote text ∧
      (openLiteral affix start quote text).1 = front.length := by
  have same := @isTripleTidied limit ending quote isOne text
  rw [openTriple, openTriple, same]
  cases triple : isTriple quote (quote :: text) with
  | false => exact ⟨[], rfl, rfl, rfl⟩
  | true =>
    have solid := quoteSolid isOne
    obtain ⟨behind, begins⟩ := delimiterOpens triple
    obtain rfl : text = quote :: quote :: behind := (List.cons.inj begins).2
    exact ⟨[quote, quote], by rw [tidySolid solid, tidySolid solid]; rfl, rfl, rfl⟩

theorem fieldNamed {depth start : Nat} {run : List Char} (first : isNameChar c = true)
    (names : ∀ d ∈ run, isNameChar d = true)
    (ends : ∀ d, rest.head? = some d →
      isNameChar d = false ∧ (isQuote d && isStringPrefix (c :: run)) = false) :
    fieldMove depth start 0 c (run ++ rest) = .ok (.stay run.length (.field depth start)) := by
  have word := takeWhileExact names fun d head => (ends d head).1
  rw [fieldWord first, word, List.drop_left]
  cases rest with
  | nil => rfl
  | cons d behind =>
    simp only [(ends d rfl).2]
    simp

theorem followsPrefixed {depth start : Nat} {run text : List Char} {quote : Char}
    (name : isNameChar c = true) (names : ∀ d ∈ run, isNameChar d = true)
    (isOne : isQuote quote = true) (letters : isStringPrefix (c :: run) = true) {affix : Affix}
    (worded : affix = .ofWord (c :: run)) :
    Follows limit ending (.field depth start) below row c (run ++ quote :: text)
      (.enter ((c :: run).length + (openLiteral affix 0 quote text).1) (.field depth start)
        (openLiteral affix 0 quote text).2) := by
  have solid := prefixSolid letters
  obtain ⟨front, passes, same, long⟩ := @openTidied limit ending affix 0 quote isOne text
  generalize opened : openLiteral affix 0 quote text = inner at passes same long
  have drops : (run ++ quote :: text).drop ((c :: run).length + inner.1) = text.drop inner.1 := by
    have count : (c :: run).length + inner.1 = (run ++ [quote]).length + inner.1 := by simp
    rw [List.append_cons, count, ← List.drop_drop, List.drop_left]
  have whole : tidyFrom limit ending row (c :: (run ++ quote :: text)) =
      c :: (run ++ quote :: front ++ tidyFrom limit ending .filled (text.drop inner.1)) := by
    rw [← List.cons_append, tidySolids solid, tidySolid (quoteSolid isOne), passes]
    simp
  refine @followsPassed limit ending _ below row c _ _ (run ++ quote :: front)
    (.enter ((c :: run).length + inner.1) (.field depth start) inner.2) ?_ ?_ ?_ rfl
  · rw [Move.more, drops, whole]
  · have stops : ∀ d, (quote :: tidyFrom limit ending .filled text).head? = some d →
        isNameChar d = false := by
      intro d first
      cases first
      exact quoteNotName isOne
    rw [Move.more, drops, List.append_assoc, List.cons_append, ← passes, Context.move,
      fieldWord name, takeWhileExact names stops, List.drop_left]
    simp only [isOne, letters, ← worded, same]
    rfl
  · simp only [Move.more, long, List.length_append, List.length_cons]
    omega

theorem followsName {depth start : Nat} {run : List Char} (name : isNameChar c = true)
    (names : ∀ d ∈ run, isNameChar d = true)
    (ends : ∀ d, rest.head? = some d →
      isNameChar d = false ∧ (isQuote d && isStringPrefix (c :: run)) = false) :
    Follows limit ending (.field depth start) below row c (run ++ rest)
      (.stay run.length (.field depth start)) := by
  have drops : (run ++ rest).drop run.length = rest := List.drop_left
  have onRow := nameOnRow (List.forall_mem_cons.mpr ⟨name, names⟩)
  cases ahead : blankAhead rest with
  | false =>
    obtain ⟨d, behind, rfl, -, same⟩ := @tidyHead limit ending .filled rest ahead
    refine @followsPassed limit ending _ below row c _ (.stay run.length _) run
      (.stay run.length (.field depth start)) ?_ ?_ rfl rfl
    · rw [Move.more, drops, ← List.cons_append, tidyRowFront onRow ahead]
      rfl
    · rw [Move.more, drops, Context.move, same]
      exact fieldNamed name names fun e first => ends e first
  | true =>
    have whole := @tidyRowEnd limit ending row _ _ onRow ahead
    rw [trimEndCons] at whole
    split at whole
    · -- The whole name is white space in front of a line break.
      refine ⟨[], row, by rw [Move.more, drops]; exact whole, .inr (List.cons_ne_nil _ _),
        fun m behind => ?_⟩
      rw [Move.more, drops] at behind
      rw [← List.cons_append, whole, List.length_nil, Nat.zero_add]
      exact behind
    · rw [List.cons_append] at whole
      refine @followsPassed limit ending _ below row c _ (.stay run.length _) (trimEnd run)
        (.stay (trimEnd run).length (.field depth start)) ?_ ?_ rfl rfl
      · rw [Move.more, drops]
        exact whole
      · rw [Move.more, drops, Context.move]
        refine fieldNamed name (fun d inside => names d ((dropEndWhilePrefix _ _).mem inside)) ?_
        intro d first
        have lineBreak := tidyBreak ahead first
        rw [breakNotQuote lineBreak]
        exact ⟨breakNotName lineBreak, rfl⟩

theorem followsWord {depth start : Nat} (name : isNameChar c = true)
    (moved : fieldMove depth start 0 c rest = .ok move) :
    Follows limit ending (.field depth start) below row c rest move := by
  have parts := (List.takeWhile_append_dropWhile (p := isNameChar) (l := rest)).symm
  have names : ∀ d ∈ rest.takeWhile isNameChar, isNameChar d = true :=
    List.all_eq_true.mp List.all_takeWhile
  have stops := List.head?_dropWhile_not isNameChar rest
  generalize rest.takeWhile isNameChar = run at parts names
  generalize rest.dropWhile isNameChar = behind at parts stops
  subst parts
  by_cases prefixed : behind.head?.any isQuote = true ∧ isStringPrefix (c :: run) = true
  · obtain ⟨quoted, letters⟩ := prefixed
    cases behind with
    | nil => cases quoted
    | cons d text =>
      have isOne : isQuote d = true := quoted
      rw [fieldWord name, takeWhileExact names (by simpa using stops), List.drop_left] at moved
      simp only [isOne, letters] at moved
      cases moved
      exact followsPrefixed name names isOne letters rfl
  · have ends (d : Char) (first : behind.head? = some d) :
        isNameChar d = false ∧ (isQuote d && isStringPrefix (c :: run)) = false := by
      rw [first] at stops prefixed
      exact ⟨by simpa using stops, by simpa using prefixed⟩
    obtain rfl := Except.ok.inj ((fieldNamed name names ends).symm.trans moved)
    exact followsName name names ends

theorem followsOpening {depth start : Nat} (quote : isQuote c = true)
    (moved : fieldMove depth start 0 c rest = .ok move) :
    Follows limit ending (.field depth start) below row c rest move := by
  rw [fieldQuote quote] at moved
  cases moved
  obtain ⟨front, passes, same, long⟩ := @openTidied limit ending .plain 0 c quote rest
  generalize opened : openLiteral .plain 0 c rest = inner at passes same long
  refine @followsPassed limit ending _ below row c rest _ front
    (.enter inner.1 (.field depth start) inner.2)
    ((tidySolid (quoteSolid quote) rest).trans (congrArg _ passes)) ?_ long rfl
  show fieldMove depth start 0 c (front ++ tidyFrom limit ending .filled (rest.drop inner.1)) = _
  rw [← passes, fieldQuote quote, same]

theorem followsField {depth start : Nat} (moved : fieldMove depth start 0 c rest = .ok move)
    (later : Closes (move.apply below) (rest.drop move.more) n) :
    Follows limit ending (.field depth start) below row c rest move := by
  cases quote : isQuote c with
  | true => exact followsOpening quote moved
  | false =>
    cases name : isNameChar c with
    | true => exact followsWord name moved
    | false =>
      have alone (other : List Char) :
          fieldMove depth start 0 c other = fieldMove depth start 0 c rest := by
        simp only [fieldMove, quote, name, Bool.false_eq_true, if_false]
      have single : move.more = 0 := by grind [fieldMove, Move.more]
      cases white : isWhite c with
      | false => exact followsSolid white single ((alone _).trans moved)
      | true =>
        have stays := @fieldStays depth start c white name
        obtain rfl := Except.ok.inj ((stays rest).symm.trans moved)
        exact followsWhite trivial white stays later

theorem followsSpec {start : Nat} (moved : specMove start c = .ok move)
    (later : Closes (move.apply below) (rest.drop move.more) n) :
    Follows limit ending (.spec start) below row c rest move := by
  cases white : isWhite c with
  | false =>
    have single : move.more = 0 := by grind [specMove, Move.more]
    exact followsSolid white single moved
  | true =>
    have onLine : isBreak c = false := by
      rw [Bool.eq_false_iff]
      intro lineBreak
      rw [specMove, if_pos lineBreak] at moved
      cases moved
    have stays := @specStays start c white onLine
    obtain rfl := Except.ok.inj ((stays rest).symm.trans moved)
    exact followsWhite trivial white stays later

theorem followsMove (quoted : context.Quoted) (moved : context.move 0 c rest = .ok move)
    (later : Closes (move.apply below) (rest.drop move.more) n) :
    Follows limit ending context below row c rest move := by
  cases context with
  | body quote triple affix start => exact followsBody quoted moved later
  | field depth start => exact followsField moved later
  | spec start => exact followsSpec moved later

theorem quotedMove (quoted : context.Quoted) (moved : context.move 0 c rest = .ok move) :
    ∀ other ∈ move.apply [], other.Quoted := by
  cases context with
  | body quote triple affix start =>
    simp only [Context.move] at moved
    grind [bodyMove, Move.apply, Context.Quoted]
  | field depth start =>
    simp only [Context.move] at moved
    grind [fieldMove, openLiteral, Move.apply, Context.Quoted]
  | spec start =>
    simp only [Context.move] at moved
    grind [specMove, Move.apply, Context.Quoted]

theorem closesTidied {stack : List Context} {text : List Char} {n : Nat} (row : Row)
    (quoted : ∀ context ∈ stack, context.Quoted) (closes : Closes stack text n) :
    ∃ taken next, tidyFrom limit ending row text =
        taken ++ tidyFrom limit ending next (text.drop n) ∧
      (row = .filled ∨ stack ≠ [] → next = .filled) ∧
      Closes stack (tidyFrom limit ending row text) taken.length := by
  induction n using Nat.strong_induction_on generalizing stack text row with
  | h n ih =>
    cases stack with
    | nil =>
      simp only [Closes, closeAll] at closes
      cases closes
      exact ⟨[], row, rfl, fun some => some.resolve_right (absurd rfl), by simp [Closes, closeAll]⟩
    | cons context below =>
      cases text with
      | nil => exact absurd closes closesFilled
      | cons c rest =>
        obtain ⟨here, under⟩ := List.forall_mem_cons.mp quoted
        obtain ⟨move, m, moved, later, rfl⟩ := closesMove closes
        obtain ⟨front, between, passes, leaves, follows⟩ :=
          @followsMove limit ending context below row c rest move m here moved later
        have above : ∀ other ∈ move.apply below, other.Quoted := by
          intro other inside
          rw [← List.nil_append below, applyAppend] at inside
          rcases List.mem_append.mp inside with new | old
          · exact quotedMove here moved other new
          · exact under other old
        obtain ⟨taken, next, behind, filled, shut⟩ := ih m (by omega) between above later
        refine ⟨front ++ taken, next, ?_, fun _ => filled ?_, ?_⟩
        · have count : m + (move.more + 1) = move.more + m + 1 := by omega
          rw [passes, behind, List.append_assoc, List.drop_drop, count, List.drop_succ_cons]
        · refine leaves.imp id fun some none => some ?_
          rw [← List.nil_append below, applyAppend] at none
          exact (List.append_eq_nil_iff.mp none).1
        · rw [List.length_append]
          exact follows _ shut

/- A literal becomes a literal, whatever stands in front of it and behind it. -/
theorem literalTidied {affix : Affix} {start offset : Nat} {quote : Char} {s x : List Char}
    (isOne : isQuote quote = true)
    (width : literalWidth affix start offset (quote :: (s ++ x)) = .ok (s.length + 1)) (row : Row) :
    ∃ t, tidyFrom limit ending row (quote :: (s ++ x)) =
        quote :: (t ++ tidyFrom limit ending .filled x) ∧
      ∀ start' offset', literalWidth affix start' offset'
        (quote :: (t ++ tidyFrom limit ending .filled x)) = .ok (t.length + 1) := by
  obtain ⟨front, passes, same, long⟩ := @openTidied limit ending affix start quote isOne (s ++ x)
  simp only [literalWidth] at width
  obtain ⟨n, closed, count⟩ := mapOk width
  generalize opened : openLiteral affix start quote (s ++ x) = inner at *
  have quoted : ∀ context ∈ [inner.2], context.Quoted := by
    rw [List.forall_mem_singleton, ← opened]
    exact isOne
  obtain ⟨taken, next, behind, filled, shut⟩ := @closesTidied limit ending _ _ n .filled quoted
    (closesAnywhere closed rfl 0)
  have ends : ((s ++ x).drop inner.1).drop n = x := by
    have count : inner.1 + n = s.length := by omega
    rw [List.drop_drop, count, List.drop_left]
  rw [filled (.inl rfl), ends] at behind
  have whole : tidyFrom limit ending .filled (s ++ x) =
      front ++ taken ++ tidyFrom limit ending .filled x := by
    rw [passes, behind, List.append_assoc]
  have here : literalWidth affix start offset
      (quote :: (front ++ taken ++ tidyFrom limit ending .filled x)) =
        .ok ((front ++ taken).length + 1) := by
    rw [← whole]
    simp only [literalWidth, same]
    rw [long] at passes shut ⊢
    rw [passes, List.drop_left, closesAnywhere shut rfl _]
    simp only [Except.map, List.length_append, Except.ok.injEq]
    omega
  exact ⟨front ++ taken, by rw [tidySolid (quoteSolid isOne), whole],
    fun start' offset' => literalInside here start' offset' id⟩

end

end CommentStrip.Python
