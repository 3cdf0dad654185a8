import CommentStrip.Proofs.Python.StripAgain
import CommentStrip.Proofs.Python.TidyLiteral

/-! Tidying what stripping leaves of a text. White space between the tokens, and at the end of a
name or a comment, may go with no more said about it than that the line ends there; the literals
are found again, each of them tidied by itself. -/
namespace CommentStrip.Python
open Unicode Text Whitespace

def literals (tokens : List Token) : List (List Char) :=
  (tokens.filter (·.kind = .string)).map Token.text

theorem literalsCons (t : Token) (later : List Token) :
    literals (t :: later) = literals [t] ++ literals later := by
  simp only [literals, List.filter_cons]
  split <;> rfl

theorem literalsOne (kind : TokenKind) (text : List Char) :
    literals [⟨kind, text⟩] = if kind = .string then [text] else [] := by
  by_cases literal : kind = .string <;> simp [literals, literal]

theorem literalsOther {t : Token} (other : t.kind ≠ .string) : literals [t] = [] := by
  simp [literals, other]

/- The text has these literals, wherever it stands with these brackets open. -/
def Reads (brackets text : List Char) (found : List (List Char)) : Prop :=
  ∀ st offset, st.brackets.map Prod.fst = brackets →
    ∃ tokens, Lexes st offset text tokens ∧ literals tokens = found

section
variable {st : State} {offset : Nat} {c : Char} {s x y : List Char} {found : Next}

theorem nextAnywhere (taken : next st offset c (s ++ x) = .ok found)
    (whole : found.more = s.length) (seam : Seam x y)
    (lone : found.kind.endsLine → (c :: s).getLast? = some '\r' → x.head? ≠ some '\n' →
      y.head? ≠ some '\n')
    {st' : State} (open' : st'.brackets.map Prod.fst = st.brackets.map Prod.fst) (offset' : Nat) :
    ∃ other, next st' offset' c (s ++ y) = .ok other ∧ other.more = s.length ∧
      (other.kind = .string ↔ found.kind = .string) ∧
      other.state.brackets.map Prod.fst = found.state.brackets.map Prod.fst := by
  have alike : st.Alike { st' with content := st.content } := ⟨open'.symm, rfl⟩
  obtain ⟨second, taken, kind, more, state⟩ := nextInside taken whole seam lone alike offset'
  obtain ⟨third, taken, moreToo, kindToo, content, stateToo⟩ := nextContent taken st'.content
  have plain : ¬ TokenKind.string.endsLine := by simp [TokenKind.endsLine]
  refine ⟨third, taken, moreToo.trans (more.trans whole), ?_, ?_⟩
  · rw [kindToo _ plain, kind]
  · rw [stateToo, state.1]

theorem lexesAnywhere {tokens : List Token} (lexed : Lexes st offset x tokens) :
    Reads (st.brackets.map Prod.fst) x (literals tokens) := by
  induction lexed with
  | done closed =>
    intro st' offset' open'
    rw [closed] at open'
    exact ⟨[], .done (List.map_eq_nil_iff.mp open'), rfl⟩
  | @token st offset c s x found later taken whole rest ih =>
    intro st' offset' open'
    obtain ⟨other, takenToo, more, kind, state⟩ :=
      nextAnywhere taken whole (.inl rfl) (fun _ _ lone => lone) open' offset'
    obtain ⟨others, lexed, same⟩ := ih other.state _ state
    refine ⟨_, .token takenToo more lexed, ?_⟩
    rw [literalsCons, literalsCons ⟨found.kind, c :: s⟩, same, literalsOne, literalsOne]
    simp only [kind]

variable {brackets inner : List Char} {within : List (List Char)}

theorem Reads.token {part : List (List Char)} (reads : Reads inner y within)
    (taken : ∀ st offset, st.brackets.map Prod.fst = brackets →
      ∃ found, next st offset c (s ++ y) = .ok found ∧ found.more = s.length ∧
        literals [⟨found.kind, c :: s⟩] = part ∧ found.state.brackets.map Prod.fst = inner) :
    Reads brackets (c :: (s ++ y)) (part ++ within) := by
  intro st offset open'
  obtain ⟨found, takes, whole, literal, state⟩ := taken st offset open'
  obtain ⟨tokens, lexed, same⟩ := reads found.state (offset + byteLength (c :: s)) state
  exact ⟨_, .token takes whole lexed, by rw [literalsCons, literal, same]⟩

theorem Reads.kept (reads : Reads (found.state.brackets.map Prod.fst) y within)
    (taken : next st offset c (s ++ x) = .ok found) (whole : found.more = s.length)
    (seam : Seam x y)
    (lone : found.kind.endsLine → (c :: s).getLast? = some '\r' → x.head? ≠ some '\n' →
      y.head? ≠ some '\n') :
    Reads (st.brackets.map Prod.fst) (c :: (s ++ y))
      (literals [⟨found.kind, c :: s⟩] ++ within) := by
  refine reads.token fun st' offset' open' => ?_
  obtain ⟨other, takenToo, more, kind, state⟩ := nextAnywhere taken whole seam lone open' offset'
  refine ⟨other, takenToo, more, ?_, state⟩
  rw [literalsOne, literalsOne]
  simp only [kind]

end

theorem breakKindOther (st : State) (text : List Char) : literals [⟨breakKind st, text⟩] = [] := by
  refine literalsOther fun literal => ?_
  rcases breakKindBreak st with same | same <;> simp [same] at literal

section
variable {limit : Option Nat} {ending : LineEnding} {brackets : List Char}
  {within : List (List Char)} {y : List Char}

theorem readsEnding : Reads brackets (ending.text ++ y) within ↔ Reads brackets y within := by
  obtain ⟨c, s, same, width⟩ : ∃ c s, ending.text = c :: s ∧ ∀ st offset,
      next st offset c (s ++ y) = .ok ⟨breakKind st, s.length, { st with content := false }⟩ := by
    cases ending with
    | lf => exact ⟨'\n', [], rfl, fun st offset => nextCut (.lineBreak rfl)⟩
    | crlf => exact ⟨'\r', ['\n'], rfl, fun st offset => nextCut (.lineBreak rfl)⟩
  rw [same, List.cons_append]
  constructor
  · intro reads
    let outer : State := ⟨brackets.map (·, 0), false⟩
    have open' : outer.brackets.map Prod.fst = brackets := by
      rw [List.map_map]
      exact List.map_id brackets
    obtain ⟨tokens, lexed, literal⟩ := reads outer 0 open'
    obtain ⟨later, rfl, rest⟩ := (lexesNext (width outer 0) rfl).mp lexed
    rw [literalsCons, breakKindOther, List.nil_append] at literal
    rw [← open', ← literal]
    exact lexesAnywhere rest
  · intro reads
    exact reads.token fun st offset open' =>
      ⟨_, width st offset, rfl, breakKindOther st _, open'⟩

theorem readsClose (row : Row) :
    Reads brackets (row.close limit ending ++ y) within ↔ Reads brackets y within := by
  cases row with
  | filled => exact readsEnding
  | blank run =>
    rw [Row.close]
    split
    · exact readsEnding
    · exact Iff.rfl

end

section
variable {limit : Option Nat} {ending : LineEnding}

theorem Seam.tidied {x y : List Char} (seam : Seam x y) :
    Seam x (tidyFrom limit ending .filled y) := by
  rcases @tidyNext limit ending y with same | breaks
  · rw [Seam, same]
    exact seam
  · exact .inr breaks

variable {st : State} {offset : Nat} {c : Char} {s x y : List Char} {found : Next}
  {within : List (List Char)} {row : Row}

theorem readsSolid (taken : next st offset c (s ++ x) = .ok found) (whole : found.more = s.length)
    (seam : Seam x y)
    (reads : Reads (found.state.brackets.map Prod.fst) (tidyFrom limit ending .filled y) within)
    (solid : ∀ d ∈ c :: s, isWhite d = false) (row : Row) :
    Reads (st.brackets.map Prod.fst) (tidyFrom limit ending row (c :: (s ++ y)))
      (literals [⟨found.kind, c :: s⟩] ++ within) := by
  have stays : tidyFrom limit ending row (c :: (s ++ y)) =
      c :: (s ++ tidyFrom limit ending .filled y) := tidySolids solid y
  rw [stays]
  refine reads.kept taken whole seam.tidied fun _ last => ?_
  cases solid '\r' (List.mem_of_getLast? last)

theorem readsAhead (taken : next st offset c (s ++ x) = .ok found) (whole : found.more = s.length)
    (seam : Seam x y)
    (reads : Reads (found.state.brackets.map Prod.fst) (tidyFrom limit ending .filled y) within)
    (onRow : '\n' ∉ c :: s) (ahead : blankAhead y = false) (row : Row) :
    Reads (st.brackets.map Prod.fst) (tidyFrom limit ending row (c :: (s ++ y)))
      (literals [⟨found.kind, c :: s⟩] ++ within) := by
  have stays : tidyFrom limit ending row (c :: (s ++ y)) =
      c :: (s ++ tidyFrom limit ending .filled y) := tidyRowFront onRow ahead
  obtain ⟨d, rest, -, other, first⟩ := @tidyHead limit ending .filled y ahead
  rw [stays]
  refine reads.kept taken whole seam.tidied fun _ _ _ feed => other ?_
  rw [first] at feed
  exact Option.some.inj feed

theorem readsGone {brackets : List Char}
    (reads : Reads brackets (tidyFrom limit ending row y) within) (onRow : '\n' ∉ c :: s)
    (ahead : blankAhead y = true) (blank : ∀ d ∈ c :: s, isWhite d = true) :
    Reads brackets (tidyFrom limit ending row (c :: (s ++ y))) within := by
  have gone := @tidyRowEnd limit ending row _ _ onRow ahead
  rw [trimEndNone.mpr (List.all_eq_true.mpr blank)] at gone
  rw [← List.cons_append, gone]
  exact reads

theorem readsComment {brackets : List Char}
    (reads : Reads brackets (tidyFrom limit ending .filled y) within)
    (line : ∀ d ∈ s, isBreak d = false) (ahead : blankAhead y = true) :
    Reads brackets (tidyFrom limit ending row ('#' :: (s ++ y))) within := by
  have onRow : '\n' ∉ '#' :: s := by
    rw [List.mem_cons, not_or]
    exact ⟨by decide, fun inside => Bool.noConfusion (line _ inside)⟩
  have cut := @tidyRowEnd limit ending row _ _ onRow ahead
  rw [trimEndCons, if_neg (fun blank => Bool.noConfusion blank.1)] at cut
  rw [← List.cons_append, cut]
  refine @Reads.token '#' (trimEnd s) _ brackets brackets within [] reads fun st offset open' => ?_
  refine ⟨_, nextCut (.comment rfl), ?_, rfl, open'⟩
  have run : (trimEnd s ++ tidyFrom limit ending .filled y).takeWhile (fun c => !isBreak c) =
      trimEnd s := by
    refine takeWhileExact (fun d inside => ?_) fun d first => ?_
    · rw [line d ((dropEndWhilePrefix _ _).mem inside)]
      rfl
    · rw [tidyBreak ahead first]
      rfl
  rw [← congrArg List.length run]
  rfl

theorem readsName {brackets : List Char}
    (reads : ∀ row, Reads brackets (tidyFrom limit ending row y) within)
    (first : isNameChar c = true) (word : c.isDigit = false)
    (names : ∀ d ∈ s, isNameChar d = true) (ahead : blankAhead y = true) :
    Reads brackets (tidyFrom limit ending row (c :: (s ++ y))) within := by
  have onRow := nameOnRow (List.forall_mem_cons.mpr ⟨first, names⟩)
  have cut := @tidyRowEnd limit ending row _ _ onRow ahead
  rw [trimEndCons] at cut
  rw [← List.cons_append, cut]
  split
  · exact reads row
  · refine @Reads.token c (trimEnd s) _ brackets brackets within [] (reads .filled)
      fun st offset open' => ?_
    have ends (d : Char) (begins : (tidyFrom limit ending .filled y).head? = some d) :=
      tidyBreak ahead begins
    have run : (trimEnd s ++ tidyFrom limit ending .filled y).takeWhile isNameChar = trimEnd s :=
      takeWhileExact (fun d inside => names d ((dropEndWhilePrefix _ _).mem inside))
        fun d begins => breakNotName (ends d begins)
    have alone : prefixesLiteral c (trimEnd s ++ tidyFrom limit ending .filled y) = false := by
      rw [prefixesLiteral, behindWord, run, List.drop_left]
      cases begins : (tidyFrom limit ending .filled y).head? with
      | none => rfl
      | some d => rw [Option.any_some, breakNotQuote (ends d begins), Bool.false_and]
    exact ⟨_, nextCut (.name first word alone), congrArg List.length run, rfl, open'⟩

theorem readsFeed {brackets : List Char}
    (reads : ∀ row, Reads brackets (tidyFrom limit ending row y) within) (row : Row) :
    ∃ z, tidyFrom limit ending row ('\n' :: y) = row.close limit ending ++ z ∧
      Reads brackets z within := by
  cases breaks : y.all isBreak with
  | false => exact ⟨_, tidyFeed breaks, reads _⟩
  | true =>
    have here := reads row
    rw [tidyEnd breaks, ← List.append_nil (row.close limit ending), readsClose] at here
    exact ⟨[], by rw [tidyEnd (by simpa [isBreak] using breaks), List.append_nil], here⟩

theorem readsBreak (taken : next st offset c (s ++ x) = .ok found) (whole : found.more = s.length)
    (seam : Seam x y)
    (reads : ∀ row, Reads (found.state.brackets.map Prod.fst) (tidyFrom limit ending row y) within)
    (first : isBreak c = true) :
    Reads (st.brackets.map Prod.fst) (tidyFrom limit ending row (c :: (s ++ y))) within := by
  have cut := nextCut (.lineBreak first : Cut st offset c (s ++ x) _)
  rw [taken] at cut
  cases cut
  obtain ⟨z, feeds, behind⟩ := readsFeed reads row
  have fed := (@readsClose limit ending _ _ _ row).mpr behind
  rw [← feeds] at fed
  rcases breakForms (breakWhole first whole) (List.cons_ne_nil c s) with same | same | ⟨same, -⟩
  · cases same
    exact fed
  · cases same
    rw [List.singleton_append, tidyReturnFeed]
    exact fed
  · cases same
    cases ahead : blankAhead y with
    | true =>
      have blank : ∀ d ∈ ['\r'], isWhite d = true := List.forall_mem_singleton.mpr (by decide)
      exact readsGone (reads row) (by decide) ahead blank
    | false =>
      have kept := readsAhead taken whole seam (reads .filled) (by decide) ahead row
      rwa [breakKindOther, List.nil_append] at kept

theorem readsContinuation (taken : next st offset '\\' (s ++ x) = .ok found)
    (whole : found.more = s.length) (seam : Seam x y)
    (reads : ∀ row, Reads (found.state.brackets.map Prod.fst) (tidyFrom limit ending row y) within)
    (width : breakWidth (s ++ x) = s.length) (filled : s ≠ []) :
    Reads (st.brackets.map Prod.fst) (tidyFrom limit ending row ('\\' :: (s ++ y))) within := by
  have positive : breakWidth (s ++ x) ≠ 0 := by
    rw [width]
    exact mt List.length_eq_zero_iff.mp filled
  have cut := nextCut (.continuation rfl positive : Cut st offset '\\' (s ++ x) _)
  have kind : literals [⟨found.kind, '\\' :: s⟩] = [] := by
    rw [taken] at cut
    cases cut
    rfl
  have state : found.state = st := by
    rw [taken] at cut
    cases cut
    rfl
  have takes {z : List Char} (behind : Reads (st.brackets.map Prod.fst) z within)
      (same : tidyFrom limit ending .filled (s ++ y) = ending.text ++ z) :
      Reads (st.brackets.map Prod.fst) (tidyFrom limit ending row ('\\' :: (s ++ y))) within := by
    have long : breakWidth (ending.text ++ z) = ending.text.length := by
      cases ending with
      | lf => rfl
      | crlf => rfl
    rw [tidySolid (by decide), same]
    refine @Reads.token '\\' ending.text z _ _ within [] behind fun st' offset' open' => ?_
    refine ⟨_, nextCut (.continuation rfl ?_), long, rfl, open'⟩
    rw [long]
    cases ending <;> decide
  rw [state] at reads
  obtain ⟨z, feeds, behind⟩ := readsFeed reads .filled
  rcases breakForms width filled with rfl | rfl | ⟨rfl, -⟩
  · exact takes behind feeds
  · exact takes behind ((tidyReturnFeed y).trans feeds)
  · cases ahead : blankAhead y with
    | true =>
      obtain ⟨later, same⟩ := @tidyAhead limit ending .filled y ahead
      have gone := @tidyDropped limit ending .filled '\r' y (by decide) (by decide) ahead
      have rest := reads .filled
      rw [same] at rest
      exact takes (readsEnding.mp rest) (gone.trans same)
    | false =>
      have here := reads .filled
      rw [← state] at here
      have kept := readsAhead taken whole seam here (by decide) ahead row
      rwa [kind, List.nil_append] at kept

end

theorem Literal.solid {text : List Char} (literal : Literal text) : Whitespace.Solid text := by
  obtain ⟨quote, isOne, last⟩ := literalLast literal
  obtain ⟨named, isOneToo, -⟩ := literal
  rename_i word mark triple inside
  refine ⟨by cases triple <;> simp [delimiter], fun c first => ?_, fun c ends => ?_⟩
  · cases word with
    | nil =>
      cases triple <;> cases first <;> exact quoteSolid isOneToo
    | cons d word =>
      cases first
      exact prefixSolid (named (List.cons_ne_nil _ _)) _ List.mem_cons_self
  · rw [last] at ends
    cases ends
    exact quoteSolid isOne

theorem readsDelimited {brackets word t y : List Char} {quote : Char} {within : List (List Char)}
    (letters : ∀ c ∈ word, isNameChar c = true)
    (named : word ≠ [] → isStringPrefix word = true) (isOne : isQuote quote = true)
    (closed : ∀ start offset,
      literalWidth (.ofWord word) start offset (quote :: (t ++ y)) = .ok (t.length + 1))
    (reads : Reads brackets y within) :
    Reads brackets (word ++ quote :: (t ++ y)) ((word ++ quote :: t) :: within) := by
  cases word with
  | nil =>
    refine @Reads.token quote t y brackets brackets within [quote :: t] reads
      fun st offset open' => ?_
    exact ⟨_, nextCut (.literal isOne (closed offset offset)), rfl, rfl, open'⟩
  | cons d word =>
    obtain ⟨first, others⟩ := List.forall_mem_cons.mp letters
    have isPrefix := named (List.cons_ne_nil d word)
    have digitless := prefixDigitless isPrefix d List.mem_cons_self
    have stops : ∀ e, (quote :: (t ++ y)).head? = some e → isNameChar e = false := by
      intro e begins
      cases begins
      exact quoteNotName isOne
    have run := takeWhileExact others stops
    have word' : wordOf d (word ++ quote :: (t ++ y)) = d :: word := by rw [wordOf, run]
    have behind : behindWord (word ++ quote :: (t ++ y)) = quote :: (t ++ y) := by
      rw [behindWord, run, List.drop_left]
    have quoted : prefixesLiteral d (word ++ quote :: (t ++ y)) = true := by
      rw [prefixesLiteral, word', behind, isPrefix]
      simp [isOne]
    have whole : word ++ quote :: (t ++ y) = word ++ quote :: t ++ y := by simp
    rw [List.cons_append, whole]
    refine @Reads.token d (word ++ quote :: t) y brackets brackets within
      [d :: (word ++ quote :: t)] reads fun st offset open' => ?_
    rw [← whole]
    refine ⟨_, nextCut (.prefixed first digitless quoted
      (by rw [word', behind]; exact closed _ _)), ?_, rfl, open'⟩
    simp only [word', List.length_append, List.length_cons]
    omega

section
variable {limit : Option Nat} {ending : LineEnding} {st : State} {offset : Nat} {c : Char}
  {s x y : List Char} {found : Next} {within : List (List Char)}

theorem literalState (taken : next st offset c x = .ok found) (literal : found.kind = .string) :
    found.state = st.withContent := by
  cases cutNext taken with
  | literal | prefixed => rfl
  | lineBreak first => rcases breakKindBreak st with same | same <;> simp [same] at literal
  | _ => cases literal

theorem readsLiteral (taken : next st offset c (s ++ x) = .ok found) (whole : found.more = s.length)
    (seam : Seam x y)
    (reads : Reads (found.state.brackets.map Prod.fst) (tidyFrom limit ending .filled y) within)
    (literal : found.kind = .string) (row : Row) :
    Reads (st.brackets.map Prod.fst) (tidyFrom limit ending row (c :: (s ++ y)))
      (tidied limit ending (c :: s) :: within) := by
  have solid := (literalForm taken whole literal).solid
  obtain ⟨word, quote, rest, start, inside, parts, letters, named, isOne, closed⟩ :=
    cutLiteral taken whole literal
  have before := literalInside closed start inside (seam.quote isOne)
  obtain ⟨t, same, closed⟩ :=
    @literalTidied limit ending _ _ _ quote rest y isOne before (row.behind word)
  have spaceless : ∀ d ∈ word, isWhite d = false := by
    intro d member
    exact prefixSolid (named (List.ne_nil_of_mem member)) d member
  have becomes : tidyFrom limit ending row (c :: (s ++ y)) =
      word ++ quote :: (t ++ tidyFrom limit ending .filled y) := by
    rw [← List.cons_append, parts, List.append_assoc, List.cons_append, tidySolids spaceless, same]
  have alone : tidied limit ending (c :: s) = word ++ quote :: t := by
    have part := @tidyPart limit ending _ solid row y
    rw [List.cons_append, becomes] at part
    refine List.append_cancel_right (part.symm.trans ?_)
    simp
  rw [literalState taken literal] at reads
  rw [becomes, alone]
  exact readsDelimited letters named isOne closed reads

theorem readsToken (taken : next st offset c (s ++ x) = .ok found) (whole : found.more = s.length)
    (seam : Seam x y)
    (reads : ∀ row, Reads (found.state.brackets.map Prod.fst) (tidyFrom limit ending row y) within)
    (row : Row) :
    Reads (st.brackets.map Prod.fst) (tidyFrom limit ending row (c :: (s ++ y)))
      ((literals [⟨found.kind, c :: s⟩]).map (tidied limit ending) ++ within) := by
  -- Where something stands behind it on the row, a token stays.
  have stays (onRow : '\n' ∉ c :: s) (other : found.kind ≠ .string)
      (ends : blankAhead y = true →
        Reads (st.brackets.map Prod.fst) (tidyFrom limit ending row (c :: (s ++ y))) within) :
      Reads (st.brackets.map Prod.fst) (tidyFrom limit ending row (c :: (s ++ y))) within := by
    cases ahead : blankAhead y with
    | true => exact ends ahead
    | false =>
      have kept := readsAhead taken whole seam (reads .filled) onRow ahead row
      rwa [literalsOther other, List.nil_append] at kept
  have solid (all : ∀ d ∈ c :: s, isWhite d = false) (other : found.kind ≠ .string) :
      Reads (st.brackets.map Prod.fst) (tidyFrom limit ending row (c :: (s ++ y))) within := by
    have kept := readsSolid taken whole seam (reads .filled) all row
    rwa [literalsOther other, List.nil_append] at kept
  by_cases literal : found.kind = .string
  · rw [literalsOne, if_pos literal]
    exact readsLiteral taken whole seam (reads .filled) literal row
  rw [literalsOther literal]
  have single (none : 0 = s.length) : s = [] := List.length_eq_zero_iff.mp none.symm
  cases cutNext taken with
  | literal | prefixed => exact absurd rfl literal
  | blank first =>
    have blanks := (whitespaceEnds taken whole rfl).1
    refine stays (fun feed => Bool.noConfusion (blanks _ feed)) literal fun ahead => ?_
    exact readsGone (reads row) (fun feed => Bool.noConfusion (blanks _ feed)) ahead
      fun d inside => blankWhite (blanks d inside)
  | lineBreak first => exact readsBreak taken whole seam reads first
  | comment first =>
    subst first
    have line := (commentForm taken whole rfl).2.1
    exact stays (fun feed => Bool.noConfusion (line _ feed)) literal fun ahead =>
      readsComment (reads .filled) (List.forall_mem_cons.mp line).2 ahead
  | continuation first behind =>
    subst first
    simp only at whole
    refine readsContinuation taken whole seam reads whole ?_
    rintro rfl
    exact behind whole
  | number first =>
    exact solid (List.forall_mem_cons.mpr
      ⟨startSolid first, numberTailEach (fun _ _ _ => numberSolid) whole⟩) literal
  | name first word alone =>
    have run : (s ++ x).takeWhile isNameChar = s := takeWhileAll whole
    have names : ∀ d ∈ s, isNameChar d = true := by
      intro d inside
      rw [← run] at inside
      exact List.all_eq_true.mp List.all_takeWhile d inside
    exact stays (nameOnRow (List.forall_mem_cons.mpr ⟨first, names⟩)) literal fun ahead =>
      readsName reads first word names ahead
  | opening first =>
    obtain rfl := single whole
    exact solid (List.forall_mem_singleton.mpr (bracketSolid (.inl first))) literal
  | closing first innermost closes =>
    obtain rfl := single whole
    exact solid (List.forall_mem_singleton.mpr (bracketSolid (.inr first))) literal
  | mark first alone =>
    obtain rfl := single whole
    cases white : isWhite c with
    | false => exact solid (List.forall_mem_singleton.mpr white) literal
    | true =>
      have onRow : '\n' ∉ [c] := by
        intro feed
        obtain rfl := List.mem_singleton.mp feed
        cases first
      exact stays onRow literal fun ahead =>
        readsGone (reads row) onRow ahead (List.forall_mem_singleton.mpr white)

theorem readsLeft {tokens : List Token} (lexed : Lexes st offset x tokens) (keep : KeepSet)
    (atStart : Bool) (row : Row) :
    Reads (st.brackets.map Prod.fst)
      (tidyFrom limit ending row (textOf (remaining keep atStart tokens)))
      ((literals tokens).map (tidied limit ending)) := by
  induction lexed generalizing atStart row with
  | @done st offset closed =>
    have nothing : Reads (st.brackets.map Prod.fst) [] [] :=
      @lexesAnywhere st 0 [] [] (.done closed)
    have close := (@readsClose limit ending _ _ _ row).mpr nothing
    rwa [List.append_nil] at close
  | @token st offset c s x found later taken whole rest ih =>
    have stays : Reads (st.brackets.map Prod.fst)
        (tidyFrom limit ending row (textOf (⟨found.kind, c :: s⟩ :: remaining keep false later)))
        ((literals (⟨found.kind, c :: s⟩ :: later)).map (tidied limit ending)) := by
      rw [literalsCons, List.map_append, textOfCons]
      exact readsToken taken whole (remainingSeam rest keep false) (ih false) row
    have goes (quiet : found.kind = .comment ∨ found.kind = .whitespace) :
        Reads (st.brackets.map Prod.fst)
          (tidyFrom limit ending row (textOf (remaining keep false later)))
          ((literals (⟨found.kind, c :: s⟩ :: later)).map (tidied limit ending)) := by
      have other : found.kind ≠ .string := by rcases quiet with same | same <;> simp [same]
      rw [literalsCons, literalsOther other, List.nil_append, ← quietState taken quiet]
      exact ih false row
    simp only [remaining]
    split
    · rename_i comment
      split
      · exact stays
      · exact goes (.inl comment)
    split
    · rename_i dropped
      exact goes (.inr dropped.1)
    · exact stays

end

/- What stripping leaves of a text that is Python is Python when it is tidied, with the literals
of the text, each of them tidied. -/
theorem stripTidied {keep : KeepSet} {text stripped : List Char} {tally : Tally}
    {tokens : List Token} (accepted : tokenize text = .ok tokens)
    (taken : strip keep text = .ok (stripped, tally)) (limit : Option Nat) :
    ∃ left, tokenize (normalize limit stripped) = .ok left ∧
      literals left = (literals tokens).map (tidied limit (lineEnding stripped)) := by
  obtain ⟨same, again, rfl, -⟩ := stripTaken taken
  rw [accepted] at again
  cases again
  rw [normalizePass]
  obtain ⟨left, lexed, literal⟩ :=
    readsLeft (tokenizeIff.mp accepted) keep true (.blank 0) .initial 0 rfl
  exact ⟨left, tokenizeIff.mpr lexed, literal⟩

theorem literalsSolid {text : List Char} {tokens : List Token}
    (accepted : tokenize text = .ok tokens) :
    ∀ literal ∈ literals tokens, Whitespace.Solid literal := by
  intro literal member
  obtain ⟨t, among, rfl⟩ := List.mem_map.mp member
  obtain ⟨inside, kind⟩ := List.mem_filter.mp among
  obtain ⟨front, back, split⟩ := List.append_of_mem inside
  have formed := lexesFormed (tokenizeIff.mp accepted) [] (by simp) split
  exact (formed.literal (by simpa using kind)).solid

theorem literalsGroomed {text : List Char} {tokens : List Token}
    (accepted : tokenize text = .ok tokens) (limit : Option Nat) (ending : LineEnding) :
    (literals tokens).map (tidied limit ending) = literals tokens ↔
      ∀ literal ∈ literals tokens, Groomed limit ending literal := by
  have solid := literalsSolid accepted
  constructor
  · intro same literal member
    rw [← List.map_id (literals tokens), List.map_map] at same
    exact (tidiedSame (solid literal member)).mp (List.map_inj_left.mp same literal member)
  · intro groomed
    refine (List.map_congr_left fun literal member => ?_).trans (List.map_id _)
    exact (tidiedSame (solid literal member)).mpr (groomed literal member)

end CommentStrip.Python
