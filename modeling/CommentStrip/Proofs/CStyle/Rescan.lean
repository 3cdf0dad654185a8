import CommentStrip.Proofs.CStyle.Scans
import CommentStrip.Proofs.Text.Breaks

/-! What is read again in what a scan left. Blanks open nothing, literals and kept comments are
found again, and a place that was passed over is passed over again: no blank can close what was
left open, and where a brace expression vanished nothing stands in front that could go on behind
it. Only regular expressions and brace expressions depend on what stands in front of them. -/
namespace CommentStrip.CStyle
open Unicode Text

section
variable {o : Options} {keep : KeepSet}

theorem unledPassed {o : Options} {before here : List Char} (unled : ledBy here = none) :
    (alternation o).accepted? accepts before here = none := by
  have unread : (alternation o).matchAt here = none := by
    simp only [Alternation.matchAt, List.findSome?_eq_none_iff]
    intro f known
    obtain ⟨branch, -, rfl⟩ := List.mem_map.mp known
    rw [Option.eq_none_iff_forall_ne_some]
    intro found read
    rw [(findLeads read).2] at unled
    cases unled
  rw [Alternation.accepted?, unread]
  rfl

def isGap (c : Char) : Prop := c = ' ' ∨ isBreak c = true

theorem gapUnled {c : Char} (gap : isGap c) (rest : List Char) : ledBy (c :: rest) = none := by
  rcases gap with rfl | lineBreak
  · rfl
  · simp only [isBreak, Bool.or_eq_true, beq_iff_eq] at lineBreak
    rcases lineBreak with rfl | rfl <;> rfl

theorem blankGap {text : List Char} : ∀ c ∈ blank text, isGap c := by
  intro c member
  obtain ⟨d, -, rfl⟩ := List.mem_map.mp member
  cases lineBreak : isBreak d with
  | true => exact .inr (by simpa using lineBreak)
  | false => exact .inl rfl

theorem collapseGap {text : List Char} : ∀ c ∈ collapse text, isGap c :=
  fun _ member => .inr (List.mem_filter.mp member).2

theorem scansBlank {before gaps here out : List Char} {judged : List Bool}
    (each : ∀ c ∈ gaps, isGap c)
    (later : Scans o keep (gaps.reverse ++ before) here out judged) :
    Scans o keep before (gaps ++ here) (gaps ++ out) judged := by
  induction gaps generalizing before with
  | nil => exact later
  | cons c gaps ih =>
    rw [List.reverse_cons, List.append_assoc] at later
    exact .past (unledPassed (gapUnled (each c List.mem_cons_self) _))
      (ih (fun d member => each d (List.mem_cons_of_mem c member)) later)

theorem appliesLed {before taken rest : List Char} {branch : Branch}
    (applies : Applies o before branch taken rest) : ledBy (taken ++ rest) = some branch :=
  lexemeLeads applies.lexeme

theorem scansUnled {before rest out : List Char} {c : Char} {judged : List Bool}
    (scanned : Scans o keep before (c :: rest) out judged) (unled : ledBy (c :: rest) = none) :
    ∃ out', out = c :: out' ∧ Scans o keep (c :: before) rest out' judged := by
  generalize same : c :: rest = here at scanned
  cases scanned with
  | done => cases same
  | past passed later =>
    cases same
    exact ⟨_, rfl, later⟩
  | literal applies | kept applies | gone applies =>
    rw [same, appliesLed applies] at unled
    cases unled
  | braceKept opens =>
    rw [same, opens.led] at unled
    cases unled
  | braceGone goes =>
    rw [same, goes.opens.led] at unled
    cases unled

theorem commentHead {branch : Branch} {taken rest : List Char} (lexeme : Lexeme branch taken rest)
    (comment : branch.isComment = true) :
    ∃ c inner, taken = c :: inner ∧ (c = '/' ∨ c = '#') := by
  cases lexeme with
  | blockComment | lineComment => exact ⟨'/', _, rfl, .inl rfl⟩
  | hashComment => exact ⟨'#', _, rfl, .inr rfl⟩
  | _ => cases comment

/- What is left begins as the text does or with a gap, unless a brace expression vanished there. -/
theorem scansHead {before here out : List Char} {judged : List Bool}
    (scanned : Scans o keep before here out judged) :
    out.head? = here.head? ∨ (∃ c, out.head? = some c ∧ isGap c) ∨
      joins before = false ∧ ['*', '/'] <:+: here := by
  cases scanned with
  | done | past => exact .inl rfl
  | literal applies | kept applies =>
    left
    obtain ⟨c, inner, rfl⟩ := List.exists_cons_of_ne_nil (lexemeFilled applies.lexeme)
    rfl
  | gone applies comment =>
    right; left
    obtain ⟨c, inner, rfl, mark⟩ := commentHead applies.lexeme comment
    refine ⟨' ', ?_, .inl rfl⟩
    rcases mark with rfl | rfl <;> rfl
  | braceKept opens =>
    left
    obtain ⟨c, inner, rfl⟩ := List.exists_cons_of_ne_nil opens.filled
    rfl
  | @braceGone before taken rest out judged goes apart =>
    right
    cases collapsed : collapse taken with
    | nil =>
      obtain ⟨lead, comment, trail, parts, rfl⟩ := goes.opens.parts
      exact .inr ⟨apart, (bracedRemains parts.inner collapsed).trans (List.infix_append' [] _ rest)⟩
    | cons c breaks =>
      exact .inl ⟨c, rfl, collapseGap c (by rw [collapsed]; exact List.mem_cons_self)⟩

theorem scansFront {before here out : List Char} {c : Char} {judged : List Bool}
    (scanned : Scans o keep before here (c :: out) judged) (joined : joins before = true)
    (solid : ¬ isGap c) (unled : ∀ rest, ledBy (c :: rest) = none) :
    ∃ rest, here = c :: rest ∧ Scans o keep (c :: before) rest out judged := by
  have first : here.head? = some c := by
    rcases scansHead scanned with same | ⟨d, same, gap⟩ | ⟨apart, -⟩
    · exact same.symm
    · exact absurd (Option.some.inj same ▸ gap) solid
    · rw [joined] at apart
      cases apart
  obtain ⟨rest, rfl⟩ := List.head?_eq_some_iff.mp first
  obtain ⟨out', same, later⟩ := scansUnled scanned (unled rest)
  cases same
  exact ⟨rest, rfl, later⟩

theorem scansBlanked (plain : o.jsx = false) {before here out : List Char} {judged : List Bool}
    (scanned : Scans o keep before here out judged) : Blanked here out := by
  induction scanned with
  | done => exact .nil
  | past passed later ih => exact .same ih
  | @literal before branch taken rest out judged applies solid later ih =>
    exact (Blanked.refl taken).append ih
  | @kept before branch taken rest out judged applies comment holds later ih =>
    exact (Blanked.refl taken).append ih
  | @gone before branch taken rest out judged applies comment goes later ih =>
    exact (Blanked.whole taken).append ih
  | braceKept opens => exact absurd opens (plainBraceless plain)
  | braceGone goes => exact absurd goes.opens (plainBraceless plain)

theorem scanBlanked (plain : o.jsx = false) (keep : KeepSet) (text : List Char) :
    Blanked text (scan o keep text).1 :=
  scansBlanked plain (scanScans (plainApart plain keep text))

theorem scansMember {before here out : List Char} {judged : List Bool}
    (scanned : Scans o keep before here out judged) {c : Char} (solid : ¬ isGap c)
    (inside : c ∈ out) : c ∈ here := by
  have behind : ∀ {gaps taken rest out : List Char}, (∀ d ∈ gaps, isGap d) →
      (c ∈ out → c ∈ rest) → c ∈ gaps ++ out → c ∈ taken ++ rest := by
    intro gaps taken rest out each ih inside
    rcases List.mem_append.mp inside with gap | later
    · exact absurd (each c gap) solid
    · exact List.mem_append_right taken (ih later)
  induction scanned with
  | done => exact inside
  | past passed later ih => exact List.mem_cons.mpr ((List.mem_cons.mp inside).imp id ih)
  | literal applies solid later ih | kept applies comment holds later ih
  | braceKept opens holds later ih =>
    exact List.mem_append.mpr ((List.mem_append.mp inside).imp id ih)
  | gone applies comment gone later ih => exact behind blankGap ih inside
  | braceGone goes apart later ih => exact behind collapseGap ih inside

/- Whether a quote that no backslash takes follows; `escaped` when a backslash stands in front. -/
def closes (quote : Char) : (escaped : Bool) → List Char → Bool
  | _, [] => false
  | true, _ :: rest => closes quote false rest
  | false, c :: rest =>
    if c = '\\' then closes quote true rest else c == quote || closes quote false rest

theorem quoteTailCloses {quote : Char} (plain : quote ≠ '\\') (text : List Char) :
    (quoteTail quote text).isSome = closes quote false text := by
  fun_induction quoteTail quote text with
  | case1 => rfl
  | case2 => rfl
  | case3 c rest ih => simpa [closes] using ih
  | case4 rest notLast notPair => simp [closes, plain]
  | case5 c rest notLast notPair other ih =>
    have normal := notBackslash notLast notPair
    have apart : (c == quote) = false := by simpa using other
    simpa [closes, normal, apart, other] using ih

theorem closesAppend {quote : Char} {x y before : List Char} (front : List Char)
    (behind : ∀ escaped, (escaped = true → (front.reverse ++ before).head? = some '\\') →
      closes quote escaped y = true → closes quote escaped x = true) {escaped : Bool}
    (slash : escaped = true → before.head? = some '\\')
    (closed : closes quote escaped (front ++ y) = true) :
    closes quote escaped (front ++ x) = true := by
  induction front generalizing before escaped with
  | nil => exact behind escaped slash closed
  | cons c front ih =>
    simp only [List.reverse_cons, List.append_assoc, List.singleton_append] at behind
    cases escaped with
    | true => exact ih behind (by simp) closed
    | false =>
      simp only [List.cons_append, closes] at closed ⊢
      split
      · rename_i backslash
        rw [if_pos backslash] at closed
        exact ih behind (fun _ => congrArg some backslash) closed
      · rename_i normal
        rw [if_neg normal, Bool.or_eq_true] at closed
        rw [Bool.or_eq_true]
        exact closed.imp id (ih behind (by simp))

theorem closesGaps {quote : Char} (solid : ¬ isGap quote) {gaps : List Char}
    (each : ∀ c ∈ gaps, isGap c) (rest : List Char) :
    closes quote false (gaps ++ rest) = closes quote false rest := by
  induction gaps with
  | nil => rfl
  | cons c gaps ih =>
    obtain ⟨gap, later⟩ := List.forall_mem_cons.mp each
    have normal : c ≠ '\\' := by
      rintro rfl
      rcases gap with bad | bad <;> cases bad
    have other : c ≠ quote := by
      rintro rfl
      exact solid gap
    rw [List.cons_append, closes, if_neg normal, beq_false_of_ne other, Bool.false_or, ih later]

theorem closesBehind {quote : Char} (solid : ¬ isGap quote) {gaps : List Char} (filled : gaps ≠ [])
    (each : ∀ c ∈ gaps, isGap c) (escaped : Bool) (rest : List Char) :
    closes quote escaped (gaps ++ rest) = closes quote false rest := by
  cases escaped with
  | false => exact closesGaps solid each rest
  | true =>
    obtain ⟨c, gaps, rfl⟩ := List.exists_cons_of_ne_nil filled
    exact closesGaps solid (List.forall_mem_cons.mp each).2 rest

theorem closesPast {quote c : Char} (normal : c ≠ '\\') {rest : List Char}
    (closed : closes quote false rest = true) (front : List Char) (escaped : Bool) :
    closes quote escaped (front ++ c :: rest) = true := by
  induction front generalizing escaped with
  | nil =>
    cases escaped with
    | true => exact closed
    | false => simp [closes, normal, closed]
  | cons d front ih =>
    cases escaped with
    | true => exact ih false
    | false =>
      simp only [List.cons_append, closes, ih]
      split <;> simp

theorem atBreakCloses {quote : Char} (solid : ¬ isGap quote) {rest : List Char}
    (atBreak : AtBreak rest) (closed : closes quote false rest = true) (front : List Char)
    (escaped : Bool) : closes quote escaped (front ++ rest) = true := by
  cases rest with
  | nil => cases closed
  | cons c rest =>
    have lineBreak := atBreak c rfl
    have each : ∀ d ∈ [c], isGap d := by simpa using .inr lineBreak
    have same := closesGaps solid each rest
    rw [List.singleton_append] at same
    rw [same] at closed
    refine closesPast ?_ closed front escaped
    intro backslash
    subst backslash
    cases lineBreak

theorem commentCloses {quote : Char} (solid : ¬ isGap quote) {branch : Branch}
    {taken rest : List Char} (lexeme : Lexeme branch taken rest)
    (comment : branch.isComment = true) (closed : closes quote false rest = true) (escaped : Bool) :
    closes quote escaped (taken ++ rest) = true := by
  cases lexeme with
  | @blockComment inner rest first =>
    have past := closesPast (c := '/') (by decide) closed (['/', '*'] ++ (inner ++ ['*'])) escaped
    simpa using past
  | lineComment line => exact atBreakCloses solid line.whole closed _ escaped
  | hashComment line => exact atBreakCloses solid line.whole closed _ escaped
  | _ => cases comment

theorem braceCloses {quote : Char} {lead comment trail rest : List Char}
    (closed : closes quote false rest = true) :
    closes quote false (braced lead comment trail ++ rest) = true := by
  have past := closesPast (c := '\x7d') (by decide) closed
    ('\x7b' :: (lead ++ (comment ++ trail))) false
  simpa [braced] using past

theorem scansCloses {quote : Char} (solid : ¬ isGap quote) {before here out : List Char}
    {judged : List Bool} (scanned : Scans o keep before here out judged) {escaped : Bool}
    (slash : escaped = true → before.head? = some '\\')
    (closed : closes quote escaped out = true) : closes quote escaped here = true := by
  induction scanned generalizing escaped with
  | done => exact closed
  | @past before c rest out judged passed later ih =>
    exact closesAppend [c] (fun _ => ih) slash closed
  | literal applies protects later ih | kept applies comment holds later ih
  | braceKept opens holds later ih => exact closesAppend _ (fun _ => ih) slash closed
  | @gone before branch taken rest out judged applies comment goes later ih =>
    have filled : blank taken ≠ [] := by
      simpa [blank] using lexemeFilled applies.lexeme
    rw [closesBehind solid filled blankGap] at closed
    exact commentCloses solid applies.lexeme comment (ih (by simp) closed) escaped
  | @braceGone before taken rest out judged goes apart later ih =>
    -- The backslash would stand directly in front of the brace, and there it joins.
    have plain : escaped = false := by
      rw [Bool.eq_false_iff]
      intro escapes
      simp [joins, slash escapes] at apart
    subst plain
    obtain ⟨lead, comment, trail, -, rfl⟩ := goes.opens.parts
    rw [closesGaps solid collapseGap] at closed
    exact braceCloses (ih (by simp) closed)

theorem quotedStays {quote : Char} (solid : ¬ isGap quote) (plain : quote ≠ '\\')
    {before rest out : List Char} {judged : List Bool} {c : Char}
    (scanned : Scans o keep before rest out judged)
    (found : (quoted quote (c :: out)).isSome = true) :
    (quoted quote (c :: rest)).isSome = true := by
  by_cases same : c = quote
  · simp only [quoted, if_pos same, Option.isSome_map, quoteTailCloses plain] at found ⊢
    exact scansCloses solid scanned (by simp) found
  · simp [quoted, same] at found

theorem urlTailIff (text : List Char) :
    (urlTail text).isSome = true ↔ text.head? ≠ some ')' ∧ ')' ∈ text := by
  have whole : (text.takeWhile (· != ')')).length = text.length ↔ ')' ∉ text := by
    have same := (List.takeWhile_prefix (l := text) (· != ')')).eq_of_length
    constructor
    · intro long member
      have within := List.all_eq_true.mp (List.all_takeWhile (p := (· != ')')) (l := text)) ')'
      rw [same long] at within
      exact absurd (within member) (by decide)
    · intro plain
      have within : ∀ c ∈ text, (c != ')') = true := by
        intro c member
        rw [bne_iff_ne]
        intro same
        subst same
        exact plain member
      have run := takeWhileExact (x := []) within (by simp)
      rw [List.append_nil] at run
      rw [run]
  cases text with
  | nil => simp [urlTail]
  | cons c text =>
    by_cases same : c = ')'
    · simp [urlTail, same]
    · have filled : ((c :: text).takeWhile (· != ')')).isEmpty = false := by
        rw [List.takeWhile_cons_of_pos (by simpa using same)]
        rfl
      simp only [urlTail, filled, Bool.false_eq_true, false_or, whole]
      by_cases member : ')' ∈ c :: text <;> simp [member, same]

theorem bindSome {α β : Type} {found : Option α} {f : α → Option β}
    (reached : (found.bind f).isSome = true) : ∃ a, found = some a ∧ (f a).isSome = true := by
  cases found with
  | none => cases reached
  | some a => exact ⟨a, rfl, reached⟩

theorem cssUrlStays {before rest out : List Char} {judged : List Bool} {c : Char}
    (scanned : Scans o keep (c :: before) rest out judged)
    (found : (cssUrl (c :: out)).isSome = true) :
    (cssUrl (c :: rest)).isSome = true := by
  rw [cssUrlReads] at found ⊢
  obtain ⟨inside, opened, reached⟩ := bindSome found
  have text : c :: out = 'u' :: 'r' :: 'l' :: '(' :: inside := afterSome.mp opened
  obtain ⟨rfl, rfl⟩ := List.cons.inj text
  have gapless : ∀ d ∈ "rl()".toList, ¬ isGap d := by simp [isGap, isBreak]
  have joined : joins ('u' :: before) = true ∧ joins ('r' :: 'u' :: before) = true ∧
      joins ('l' :: 'r' :: 'u' :: before) = true := by simp [joins, startsWith, after]
  obtain ⟨_, rfl, fromL⟩ :=
    scansFront scanned joined.1 (gapless _ (by simp)) (fun _ => rfl)
  obtain ⟨_, rfl, fromParen⟩ :=
    scansFront fromL joined.2.1 (gapless _ (by simp)) (fun _ => rfl)
  obtain ⟨body, rfl, behind⟩ :=
    scansFront fromParen joined.2.2 (gapless _ (by simp)) (fun _ => rfl)
  have openedToo : after "url(".toList ('u' :: 'r' :: 'l' :: '(' :: body) = some body :=
    afterSome.mpr rfl
  rw [Option.isSome_map, urlTailIff] at reached
  rw [openedToo, Option.bind_some, Option.isSome_map, urlTailIff]
  refine ⟨?_, scansMember behind (gapless _ (by simp)) reached.2⟩
  intro first
  obtain ⟨more, rfl⟩ := List.head?_eq_some_iff.mp first
  obtain ⟨out', rfl, -⟩ := scansUnled behind rfl
  exact reached.1 rfl

theorem throughInfix {stop text : List Char} :
    (through stop text).isSome = true ↔ stop <:+: text := by
  constructor
  · intro found
    obtain ⟨n, reached⟩ := Option.isSome_iff_exists.mp found
    obtain ⟨e, -, starts⟩ := throughEnds reached
    exact (startsWithPrefix.mp starts).isInfix.trans (List.drop_suffix e text).isInfix
  · intro inside
    obtain ⟨front, back, rfl⟩ := inside
    have starts : startsWith stop ((front ++ stop ++ back).drop front.length) = true := by
      rw [List.append_assoc, List.drop_left]
      exact startsWithIff.mpr ⟨back, rfl⟩
    obtain ⟨n, reached, -⟩ := throughFirst starts
    exact Option.isSome_of_eq_some reached

theorem infixGaps {gaps out : List Char} (each : ∀ c ∈ gaps, isGap c)
    (inside : ['*', '/'] <:+: gaps ++ out) : ['*', '/'] <:+: out := by
  induction gaps with
  | nil => exact inside
  | cons c gaps ih =>
    obtain ⟨gap, later⟩ := List.forall_mem_cons.mp each
    rcases List.infix_cons_iff.mp inside with starts | behind
    · have star : '*' = c := (List.cons_prefix_cons.mp starts).1
      subst star
      rcases gap with bad | bad <;> cases bad
    · exact ih later behind

theorem infixFront {rest out : List Char} (front : List Char)
    (first : out.head? = some '/' → rest.head? = some '/' ∨ ['*', '/'] <:+: rest)
    (behind : ['*', '/'] <:+: out → ['*', '/'] <:+: rest)
    (inside : ['*', '/'] <:+: front ++ out) : ['*', '/'] <:+: front ++ rest := by
  induction front with
  | nil => exact behind inside
  | cons c front ih =>
    rw [List.cons_append, List.infix_cons_iff] at inside ⊢
    refine inside.elim (fun starts => ?_) fun later => .inr (ih later)
    obtain ⟨rfl, more, slash⟩ := List.cons_prefix_cons.mp starts
    cases front with
    | cons d front =>
      obtain ⟨rfl, -⟩ := List.cons.inj slash
      exact .inl ⟨front ++ rest, rfl⟩
    | nil =>
      have head : out.head? = some '/' := by
        rw [← List.nil_append out, ← slash]
        rfl
      refine (first head).elim (fun same => .inl ?_) .inr
      obtain ⟨rest, rfl⟩ := List.head?_eq_some_iff.mp same
      exact ⟨rest, rfl⟩

theorem scansStarSlash {before here out : List Char} {judged : List Bool}
    (scanned : Scans o keep before here out judged) (inside : ['*', '/'] <:+: out) :
    ['*', '/'] <:+: here := by
  have first : ∀ {before here out judged}, Scans o keep before here out judged →
      out.head? = some '/' → here.head? = some '/' ∨ ['*', '/'] <:+: here := by
    intro before here out judged scanned slash
    rcases scansHead scanned with same | ⟨c, head, gap⟩ | ⟨-, closed⟩
    · exact .inl (same ▸ slash)
    · rw [slash] at head
      cases head
      rcases gap with bad | bad <;> cases bad
    · exact .inr closed
  have behind : ∀ {taken rest : List Char}, ['*', '/'] <:+: rest → ['*', '/'] <:+: taken ++ rest :=
    fun inside => inside.trans (List.suffix_append _ _).isInfix
  induction scanned with
  | done => exact inside
  | @past before c rest out judged passed later ih =>
    exact infixFront [c] (first later) ih inside
  | literal applies solid later ih | kept applies comment holds later ih
  | braceKept opens holds later ih => exact infixFront _ (first later) ih inside
  | gone applies comment gone later ih => exact behind (ih (infixGaps blankGap inside))
  | braceGone goes apart later ih => exact behind (ih (infixGaps collapseGap inside))

theorem blockStays {before rest out : List Char} {judged : List Bool} {c : Char}
    (scanned : Scans o keep (c :: before) rest out judged)
    (found : (blockComment (c :: out)).isSome = true) :
    (blockComment (c :: rest)).isSome = true := by
  rw [blockReads] at found ⊢
  obtain ⟨inside, opened, reached⟩ := bindSome found
  have text : c :: out = '/' :: '*' :: inside := afterSome.mp opened
  obtain ⟨rfl, rfl⟩ := List.cons.inj text
  obtain ⟨body, rfl, behind⟩ :=
    scansFront scanned (by simp [joins, isRegexFlag]) (by simp [isGap, isBreak]) (fun _ => rfl)
  have openedToo : after ['/', '*'] ('/' :: '*' :: body) = some body := afterSome.mpr rfl
  rw [Option.isSome_map, throughInfix] at reached
  rw [openedToo, Option.bind_some, Option.isSome_map, throughInfix]
  exact scansStarSlash behind reached

theorem lineStays {before rest out : List Char} {judged : List Bool} {c : Char}
    (scanned : Scans o keep (c :: before) rest out judged)
    (found : (lineComment (c :: out)).isSome = true) : (lineComment (c :: rest)).isSome = true := by
  have begins : startsWith ['/', '/'] (c :: out) = true := by
    cases begins : startsWith ['/', '/'] (c :: out) with
    | true => rfl
    | false => simp [lineComment, begins] at found
  obtain ⟨more, text⟩ := startsWithIff.mp begins
  obtain ⟨rfl, rfl⟩ := List.cons.inj text
  have head : rest.head? = some '/' := by
    rcases scansHead scanned with same | ⟨d, first, gap⟩ | ⟨apart, -⟩
    · exact same.symm
    · cases first
      rcases gap with bad | bad <;> cases bad
    · simp [joins, isRegexFlag] at apart
  obtain ⟨rest, rfl⟩ := List.head?_eq_some_iff.mp head
  rfl

theorem hashStays {before rest out : List Char} {judged : List Bool} {c : Char}
    (scanned : Scans o keep before rest out judged) (fits : ¬ ['#', '['] <+: c :: out)
    (found : (hashComment (c :: out)).isSome = true) :
    ¬ ['#', '['] <+: c :: rest ∧ (hashComment (c :: rest)).isSome = true := by
  have begins : startsWith ['#'] (c :: out) = true := by
    cases begins : startsWith ['#'] (c :: out) with
    | true => rfl
    | false => simp [hashComment, begins] at found
  obtain ⟨more, text⟩ := startsWithIff.mp begins
  obtain ⟨rfl, rfl⟩ := List.cons.inj text
  refine ⟨?_, rfl⟩
  intro opens
  obtain ⟨more, same⟩ := opens
  obtain ⟨-, rfl⟩ := List.cons.inj same
  obtain ⟨out', rfl, -⟩ := scansUnled scanned rfl
  exact fits ⟨out', rfl⟩

def readsRegex (before here : List Char) : Bool :=
  expectsValue before && (regexLiteral here).isSome

structure Alike (o : Options) (before here before' here' : List Char) : Prop where
  regexes : o.regexLiterals = true → readsRegex before here = readsRegex before' here'
  braces : o.jsx = true → readsBrace before here = readsBrace before' here'

theorem passedAgain {before before' rest out : List Char} {c : Char} {judged : List Bool}
    (scanned : Scans o keep (c :: before) rest out judged)
    (passed : (alternation o).accepted? accepts before (c :: rest) = none)
    (alike : Alike o before (c :: rest) before' (c :: out)) :
    (alternation o).accepted? accepts before' (c :: out) = none := by
  rw [passedIff] at passed ⊢
  refine ⟨fun enabled => by rw [← alike.braces enabled, passed.1 enabled], ?_⟩
  intro branch enabled fits
  rw [← Option.not_isSome_iff_eq_none]
  intro found
  have never : ∀ branch, Enabled o branch → Fits before branch (c :: rest) →
      (branch.extent (c :: rest)).isSome = true → False := by
    intro branch enabled fits found
    rw [passed.2 branch enabled fits] at found
    cases found
  cases branch with
  | jsxComment => exact enabled
  | singleQuoted =>
    exact never .singleQuoted enabled trivial
      (quotedStays (by simp [isGap, isBreak]) (by decide) scanned found)
  | doubleQuoted =>
    exact never .doubleQuoted enabled trivial
      (quotedStays (by simp [isGap, isBreak]) (by decide) scanned found)
  | templateLiteral =>
    exact never .templateLiteral enabled trivial
      (quotedStays (by simp [isGap, isBreak]) (by decide) scanned found)
  | cssUrl => exact never .cssUrl enabled trivial (cssUrlStays scanned found)
  | regexLiteral =>
    have reads : readsRegex before' (c :: out) = true := by
      rw [readsRegex, Bool.and_eq_true]
      exact ⟨fits, found⟩
    rw [← alike.regexes enabled, readsRegex, Bool.and_eq_true] at reads
    exact never .regexLiteral enabled reads.1 reads.2
  | blockComment => exact never .blockComment enabled trivial (blockStays scanned found)
  | lineComment => exact never .lineComment enabled trivial (lineStays scanned found)
  | hashComment =>
    have stays := hashStays scanned fits found
    exact never .hashComment enabled stays.1 stays.2

theorem scansEmpty {before out : List Char} {judged : List Bool}
    (scanned : Scans o keep before [] out judged) : out = [] := by
  generalize same : [] = here at scanned
  cases scanned with
  | done => rfl
  | past => cases same
  | literal applies | kept applies | gone applies =>
    exact absurd (List.append_eq_nil_iff.mp same.symm).1 (lexemeFilled applies.lexeme)
  | braceKept opens => exact absurd (List.append_eq_nil_iff.mp same.symm).1 opens.filled
  | braceGone goes => exact absurd (List.append_eq_nil_iff.mp same.symm).1 goes.opens.filled

theorem scansAtBreak {before rest out : List Char} {judged : List Bool}
    (scanned : Scans o keep before rest out judged) (atBreak : AtBreak rest) : AtBreak out := by
  cases rest with
  | nil =>
    obtain rfl := scansEmpty scanned
    exact atBreak
  | cons c rest =>
    have lineBreak := atBreak c rfl
    obtain ⟨out', rfl, -⟩ := scansUnled scanned (gapUnled (.inr lineBreak) rest)
    intro d same
    cases same
    exact lineBreak

theorem regexJoins {body flags : List Char} (closed : RegexRest body)
    (letters : ∀ c ∈ flags, c ∈ "dgimsuvy".toList) (before : List Char) :
    joins (('/' :: (body ++ flags)).reverse ++ before) = true := by
  obtain ⟨front, rfl⟩ := regexRestLast closed
  have each : ∀ c ∈ flags.reverse, isRegexFlag c = true := by
    intro c member
    simpa [isRegexFlag] using letters c (List.mem_reverse.mp member)
  have whole : ('/' :: (front ++ ['/'] ++ flags)).reverse ++ before =
      flags.reverse ++ '/' :: (front.reverse ++ '/' :: before) := by simp
  have behind : (('/' :: (front ++ ['/'] ++ flags)).reverse ++ before).dropWhile isRegexFlag =
      '/' :: (front.reverse ++ '/' :: before) := by
    rw [whole, List.dropWhile_append_of_pos each]
    rfl
  simp only [joins, behind]
  simp

theorem lexemeAgain {before taken rest out : List Char} {branch : Branch} {judged : List Bool}
    (lexeme : Lexeme branch taken rest)
    (scanned : Scans o keep (taken.reverse ++ before) rest out judged) :
    Lexeme branch taken out := by
  cases lexeme with
  | singleQuoted closed => exact .singleQuoted closed
  | doubleQuoted closed => exact .doubleQuoted closed
  | templateLiteral closed => exact .templateLiteral closed
  | cssUrl filled plain => exact .cssUrl filled plain
  | @regexLiteral body flags rest closed filled code letters longest =>
    refine .regexLiteral closed filled code letters ?_
    intro c first
    rcases scansHead scanned with same | ⟨d, same, gap⟩ | ⟨apart, -⟩
    · exact longest c (same ▸ first)
    · rw [first] at same
      cases same
      rcases gap with rfl | lineBreak
      · decide
      · simp only [isBreak, Bool.or_eq_true, beq_iff_eq] at lineBreak
        rcases lineBreak with rfl | rfl <;> decide
    · rw [regexJoins closed letters] at apart
      cases apart
  | blockComment first => exact .blockComment first
  | lineComment line => exact .lineComment ⟨line.within, scansAtBreak scanned line.whole⟩
  | hashComment line => exact .hashComment ⟨line.within, scansAtBreak scanned line.whole⟩

theorem attributeAgain {before inner rest out : List Char} {judged : List Bool}
    (line : Line inner rest) (scanned : Scans o keep before rest out judged)
    (fits : ¬ ['#', '['] <+: '#' :: inner ++ rest) : ¬ ['#', '['] <+: '#' :: inner ++ out := by
  intro opens
  obtain ⟨more, same⟩ := opens
  obtain ⟨-, same⟩ := List.cons.inj same
  cases inner with
  | nil =>
    have first : out.head? = some '[' := congrArg List.head? same.symm
    have lineBreak := scansAtBreak scanned line.whole '[' first
    cases lineBreak
  | cons c inner =>
    obtain ⟨rfl, -⟩ := List.cons.inj same
    exact fits ⟨inner ++ rest, rfl⟩

theorem appliesAgain {before before' taken rest out : List Char} {branch : Branch}
    {judged : List Bool} (applies : Applies o before branch taken rest)
    (scanned : Scans o keep (taken.reverse ++ before) rest out judged)
    (alike : Alike o before (taken ++ rest) before' (taken ++ out)) :
    Applies o before' branch taken out := by
  refine ⟨applies.enabled, lexemeAgain applies.lexeme scanned, ?_⟩
  obtain ⟨enabled, lexeme, fits⟩ := applies
  cases lexeme with
  | hashComment line => exact attributeAgain line scanned fits
  | @regexLiteral body flags rest closed filled code letters longest =>
    have takes : Takes Branch.regexLiteral.extent (Lexeme .regexLiteral) := lexemeTakes (by decide)
    have extent := (takes _ _).mpr
      ⟨_, rest, rfl, rfl, .regexLiteral closed filled code letters longest⟩
    have reads : readsRegex before ('/' :: (body ++ flags) ++ rest) = true := by
      rw [readsRegex, Bool.and_eq_true]
      exact ⟨fits, Option.isSome_of_eq_some extent⟩
    rw [alike.regexes enabled, readsRegex, Bool.and_eq_true] at reads
    exact reads.1
  | _ => trivial

theorem braceAgain {before before' taken rest out : List Char}
    (opens : OpensBrace o before taken rest)
    (alike : Alike o before (taken ++ rest) before' (taken ++ out)) :
    OpensBrace o before' taken out :=
  opens.again (by rw [← alike.braces opens.enabled, opens.reads])

end

end CommentStrip.CStyle
