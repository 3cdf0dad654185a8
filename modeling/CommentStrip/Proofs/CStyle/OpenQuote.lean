import CommentStrip.Proofs.CStyle.Braces
import CommentStrip.Proofs.CStyle.Partition
import CommentStrip.Proofs.CStyle.Removed

/-! A quote that nothing closes. It is plain code, and the search goes on behind it: no literal of
its kind follows, but a comment may, and then the rest of the text is not copied as it is. -/
namespace CommentStrip.CStyle
open Unicode Text

def quoteMarks : List (Branch × Char) :=
  [(.singleQuoted, '\''), (.doubleQuoted, '"'), (.templateLiteral, '\x60')]

theorem markExtent {branch : Branch} {quote : Char} (mark : (branch, quote) ∈ quoteMarks) :
    branch.extent = quoted quote ∧ quote ≠ '\\' := by
  simp only [quoteMarks, List.mem_cons, Prod.mk.injEq, List.not_mem_nil, or_false] at mark
  rcases mark with ⟨rfl, rfl⟩ | ⟨rfl, rfl⟩ | ⟨rfl, rfl⟩ <;> exact ⟨rfl, by decide⟩

/- Every such quote behind an open one is escaped, and the pairs are the same from it on: it is
open as well. -/
theorem openStays {quote : Char} (plain : quote ≠ '\\') {text front behind : List Char}
    (opened : quoteTail quote text = none) (cut : text = front ++ quote :: behind) :
    quoteTail quote behind = none := by
  fun_induction quoteTail quote text generalizing front with
  | case1 => simp at cut
  | case2 =>
    cases front with
    | nil => exact absurd (List.cons.inj cut).1.symm plain
    | cons c front => simp at cut
  | case3 c rest ih =>
    have opened : quoteTail quote rest = none := by simpa using opened
    cases front with
    | nil => exact absurd (List.cons.inj cut).1.symm plain
    | cons d front =>
      obtain ⟨-, cut⟩ := List.cons.inj cut
      cases front with
      | nil =>
        obtain ⟨-, rfl⟩ := List.cons.inj cut
        exact opened
      | cons e front => exact ih opened (List.cons.inj cut).2
  | case4 rest notLast notPair => cases opened
  | case5 c rest notLast notPair other ih =>
    have opened : quoteTail quote rest = none := by simpa using opened
    cases front with
    | nil => exact absurd (List.cons.inj cut).1 other
    | cons d front => exact ih opened (List.cons.inj cut).2

def CommentOpens (o : Options) (here : List Char) : Prop :=
  ['/', '*'] <+: here ∨ (o.lineComments = true ∨ o.jsx = true) ∧ ['/', '/'] <+: here ∨
    o.hashComments = true ∧ ['#'] <+: here

theorem braceOpens {here : List Char} {n : Nat} (found : jsxComment here = some n) :
    ∃ front back, here = front ++ back ∧ (['/', '*'] <+: back ∨ ['/', '/'] <+: back) := by
  obtain ⟨taken, rest, rfl, -, lead, comment, trail, parts, rfl⟩ := (jsxTakes here n).mp found
  refine ⟨'\x7b' :: lead, comment ++ (trail ++ ['\x7d'] ++ rest), by simp [braced], ?_⟩
  cases parts.inner with
  | block first => exact .inl (by simp)
  | line first => exact .inr (by simp)

theorem commentReads {o : Options} {here : List Char} {found : Find}
    (read : (alternation o).matchAt here = some found) (comment : found.branch.isComment = true) :
    ∃ front back, here = front ++ back ∧ CommentOpens o back := by
  obtain ⟨listed, spoke⟩ := matchReads read
  obtain ⟨width, extent, -⟩ := Option.map_eq_some_iff.mp spoke
  by_cases brace : found.branch = .jsxComment
  · rw [brace] at listed extent
    have enabled : o.jsx = true := by
      by_contra plain
      exact (enabledIff (by simpa using plain) .jsxComment).mp listed
    obtain ⟨front, back, rfl, opens⟩ := braceOpens extent
    exact ⟨front, back, rfl, opens.imp id fun line => .inl ⟨.inr enabled, line⟩⟩
  · have enabled : Enabled o found.branch :=
      (enabledIff (o := o.withoutBraces) rfl _).mp ((braceless brace).mp listed)
    obtain ⟨taken, rest, rfl, -, lexeme⟩ := (lexemeTakes brace here width).mp extent
    refine ⟨[], taken ++ rest, rfl, ?_⟩
    generalize found.branch = branch at enabled comment lexeme
    cases lexeme with
    | @blockComment inner => exact .inl ⟨inner ++ ['*', '/'] ++ rest, by simp⟩
    | @lineComment inner => exact .inr (.inl ⟨.inl enabled, inner ++ rest, by simp⟩)
    | @hashComment inner => exact .inr (.inr ⟨enabled, inner ++ rest, by simp⟩)
    | _ => cases comment

theorem noneQuoted {o : Options} {text front here : List Char} {quote : Char} {found : Find}
    (mark : (found.branch, quote) ∈ quoteMarks) (opened : quoteTail quote text = none)
    (cut : text = front ++ here) : (alternation o).matchAt here ≠ some found := by
  intro read
  obtain ⟨reads, plain⟩ := markExtent mark
  obtain ⟨width, extent, -⟩ := Option.map_eq_some_iff.mp (matchReads read).2
  rw [reads] at extent
  cases here with
  | nil => cases extent
  | cons c behind =>
    rw [quoted] at extent
    split at extent
    · rename_i same
      rw [openStays plain opened (by rw [cut, same])] at extent
      cases extent
    · cases extent

theorem commentKind {keep : KeepSet} {found : Find} {taken : List Char}
    (comment : (classified keep (.hit found taken)).kind = .comment) :
    found.branch.isComment = true := by
  by_contra other
  simp [classified, kindOf, other] at comment

section
variable {o : Options} {keep : KeepSet}

theorem removedNone (found : List (Piece Find)) :
    (decisions keep found).count false = 0 ↔
      ∀ c ∈ found.map (classified keep), c.kind ≠ .comment := by
  have labelled : ∀ c ∈ found.map (classified keep), Labelled c := by
    intro c member
    obtain ⟨piece, -, rfl⟩ := List.mem_map.mp member
    exact classifiedLabelled keep piece
  have same : tally (found.map (classified keep)) = .ofDecisions (decisions keep found) := by
    rw [tally, decisions, List.filterMap_map]
    rfl
  have counts := tallyCounts labelled
  rw [same, Tally.ofDecisionsCount] at counts
  rw [(Tally.mk.inj counts).1, List.countP_eq_zero]
  simp

theorem gapSplit {text gap : List Char} {earlier later : List Classified}
    (spans : classify o keep text = earlier ++ ⟨gap, .code, none⟩ :: later) :
    ∃ front back, pieces o text = front ++ .gap gap :: back ∧
      earlier = front.map (classified keep) ∧ later = back.map (classified keep) := by
  obtain ⟨front, rest, split, rfl, behind⟩ := List.map_eq_append_iff.mp spans
  obtain ⟨piece, back, rfl, same, rfl⟩ := List.map_eq_cons_iff.mp behind
  cases piece with
  | gap found =>
    cases same
    exact ⟨front, back, split, rfl, rfl⟩
  | hit found taken => simp [classified] at same

theorem spelledSpans (found : List (Piece Find)) :
    (found.map (classified keep)).flatMap Classified.text = spelled found := by
  rw [List.flatMap_map, spelled, ← List.flatMap_def]
  exact List.flatMap_congr fun piece _ => classifiedText keep piece

/- A text with an open quote: from the quote on it is copied as it is exactly when no comment is
removed behind the quote. No literal of that quote follows. Where nothing opens a comment, nothing
is removed. -/
theorem openQuoteCopied (o : Options) (keep : KeepSet) {text plain rest behind : List Char}
    {branch : Branch} {quote : Char} {earlier later : List Classified}
    (mark : (branch, quote) ∈ quoteMarks)
    (spans : classify o keep text = earlier ++ ⟨plain ++ quote :: rest, .code, none⟩ :: later)
    (told : rest ++ later.flatMap Classified.text = behind)
    (opened : quoteTail quote behind = none) :
    text = earlier.flatMap Classified.text ++ (plain ++ quote :: behind) ∧
      (∀ c ∈ later, c.branch ≠ some branch) ∧
      ∃ copied, (scan o keep text).1 = clean earlier ++ (plain ++ quote :: copied) ∧
        copied.length ≤ behind.length ∧
        (copied = behind ↔ ∀ c ∈ later, c.kind ≠ .comment) ∧
        ((∀ front back, behind = front ++ back → ¬ CommentOpens o back) → copied = behind) := by
  obtain ⟨front, back, split, rfl, rfl⟩ := gapSplit spans
  rw [spelledSpans] at told
  have whole : spelled (pieces o text) = text := Alternation.spelledSearch _ _ _
  have member : ∀ read taken, .hit read taken ∈ back → .hit read taken ∈ pieces o text := by
    intro read taken inside
    rw [split]
    exact List.mem_append_right _ (List.mem_cons_of_mem _ inside)
  -- What a later find read stands behind the quote.
  have reads : ∀ read taken, .hit read taken ∈ back → ∃ passed here, behind = passed ++ here ∧
      (alternation o).matchAt here = some read := by
    intro read taken inside
    obtain ⟨between, more, rfl⟩ := List.append_of_mem inside
    have found : (alternation o).matchAt (taken ++ spelled more) = some read :=
      Alternation.hitReadsOn (front ++ .gap (plain ++ quote :: rest) :: between) (by
        rw [← Alternation.search, ← pieces, split]
        simp)
    refine ⟨rest ++ spelled between, _, ?_, found⟩
    rw [← told]
    simp [spelled, Piece.text]
  have removal := piecesRemoval keep fun read taken inside => hitVisible (member read taken inside)
  have copies : left keep back = spelled back ↔
      ∀ c ∈ back.map (classified keep), c.kind ≠ .comment := by
    rw [← removedNone, ← removal.same, spelled, List.flatMap_def]
  have copied : rest ++ left keep back = behind ↔
      ∀ c ∈ back.map (classified keep), c.kind ≠ .comment := by
    rw [← told, List.append_cancel_left_eq, copies]
  refine ⟨?_, ?_, rest ++ left keep back, ?_, ?_, copied, ?_⟩
  · rw [spelledSpans, ← told, ← whole, split]
    simp [spelled, Piece.text]
  · intro c inside same
    obtain ⟨piece, found, rfl⟩ := List.mem_map.mp inside
    cases piece with
    | gap gap => cases same
    | hit read taken =>
      obtain ⟨passed, here, cut, found⟩ := reads read taken found
      obtain rfl : read.branch = branch := Option.some.inj same
      exact noneQuoted mark opened cut found
  · rw [scanPieces, split]
    simp [left, clean, List.flatMap_map, classified, cleaned]
  · have shorter := removal.shorter
    rw [List.flatMap_def] at shorter
    rw [← told, spelled, List.length_append, List.length_append]
    omega
  · intro quiet
    refine copied.mpr ?_
    intro c inside comment
    obtain ⟨piece, found, rfl⟩ := List.mem_map.mp inside
    cases piece with
    | gap gap => cases comment
    | hit read taken =>
      obtain ⟨passed, here, rfl, found⟩ := reads read taken found
      obtain ⟨front, back, rfl, opens⟩ := commentReads found (commentKind comment)
      exact quiet (passed ++ front) back (by simp) opens

theorem openQuoteCopiedApostrophe :
    let text := "/* a */ it's \\' \"b\" done".toList
    let earlier : List Classified := [⟨"/* a */".toList, .comment, some .blockComment⟩]
    let later : List Classified :=
      [⟨"\"b\"".toList, .literal, some .doubleQuoted⟩, ⟨" done".toList, .code, none⟩]
    (.singleQuoted, '\'') ∈ quoteMarks ∧
      classify (.script false) .empty text =
        earlier ++ ⟨" it".toList ++ '\'' :: "s \\' ".toList, .code, none⟩ :: later ∧
      quoteTail '\'' "s \\' \"b\" done".toList = none ∧
      (scan (.script false) .empty text).1 =
        clean earlier ++ " it's \\' \"b\" done".toList := by
  intro text earlier later
  have mark : (.singleQuoted, '\'') ∈ quoteMarks := by decide
  have spans : classify (.script false) .empty text =
      earlier ++ ⟨" it".toList ++ '\'' :: "s \\' ".toList, .code, none⟩ :: later := by
    decide +kernel
  have opened : quoteTail '\'' "s \\' \"b\" done".toList = none := by decide +kernel
  obtain ⟨-, -, copied, scanned, -, same, -⟩ := openQuoteCopied _ _ mark spans rfl opened
  rw [same.mpr (by decide)] at scanned
  exact ⟨mark, spans, opened, scanned⟩

/- The comment is removed, though it stands behind an open quote. -/
theorem openQuoteBlanked :
    classify (.script false) .empty "' // c".toList =
        [] ++ ⟨[] ++ '\'' :: " ".toList, .code, none⟩ ::
          [⟨"// c".toList, .comment, some .lineComment⟩] ∧
      quoteTail '\'' " // c".toList = none ∧
      (scan (.script false) .empty "' // c".toList).1 ≠ "' // c".toList := by
  decide +kernel

end

end CommentStrip.CStyle
