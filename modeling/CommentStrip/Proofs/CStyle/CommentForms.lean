import CommentStrip.Proofs.CStyle.LiteralForms
import CommentStrip.Proofs.Text.Seam

/-! Comments are read as their expressions match them, and so is every branch. -/
namespace CommentStrip.CStyle
open Unicode Text Expression

namespace Form

theorem starSlashEnds (text : List Char) :
    (word ['*'] (char '/')).ends text = if startsWith ['*', '/'] text then [2] else [] := by
  cases text with
  | nil => rfl
  | cons c rest =>
    show (seq (char '*') (char '/')).ends (c :: rest) = _
    rw [charSeqEnds]
    by_cases star : c = '*'
    · subst star
      rw [if_pos rfl]
      cases rest with
      | nil => rfl
      | cons d rest =>
        rw [charEnds]
        by_cases slash : d = '/'
        · subst slash
          rfl
        · rw [if_neg slash, if_neg (by simp [startsWith, after, Ne.symm slash])]
          rfl
    · rw [if_neg star, if_neg (by simp [startsWith, after, Ne.symm star])]

theorem blockTailExtent (text : List Char) :
    (seq (.star false anything) (word ['*'] (char '/'))).extent text =
      through ['*', '/'] text := by
  induction text with
  | nil => rfl
  | cons c rest ih =>
    rw [extent] at ih
    rw [extent, starSeqEnds, starSlashEnds, anythingEnds]
    cases starts : startsWith ['*', '/'] (c :: rest) with
    | true => simp [throughHere starts]
    | false =>
      rw [throughLater starts]
      simp [ih, Nat.add_comm]

theorem blockCommentExtent (text : List Char) :
    blockComment.extent text = CStyle.blockComment text := by
  rw [extent, blockComment, wordEnds, CStyle.blockComment]
  cases after ['/', '*'] text with
  | none => rfl
  | some inside =>
    have tail := blockTailExtent inside
    rw [extent] at tail
    simp only [List.head?_map, tail, bind, Option.bind]
    cases through ['*', '/'] inside with
    | none => rfl
    | some body => simp [Nat.add_comm]

theorem lineExtent (text : List Char) : toLineEnd.extent text = some (CStyle.toLineEnd text) := by
  have same : (fun c : Char => !(['\r', '\n'].contains c)) = fun c => !isBreak c := by
    funext c
    simp [isBreak, Bool.and_comm, Bool.beq_eq_decide_eq]
  rw [toLineEnd, but, same]
  exact runExtent _ text

theorem lineCommentExtent (text : List Char) :
    (word ['/', '/'] toLineEnd).extent text = lineComment text := by
  rw [extent, wordEnds, lineComment]
  cases found : after ['/', '/'] text with
  | none => simp [startsWith, found]
  | some rest =>
    obtain rfl := afterSome.mp found
    have line := lineExtent rest
    rw [extent] at line
    have starts : startsWith ['/', '/'] (['/', '/'] ++ rest) = true :=
      startsWithIff.mpr ⟨rest, rfl⟩
    have whole : CStyle.toLineEnd (['/', '/'] ++ rest) = 2 + CStyle.toLineEnd rest :=
      Nat.add_comm _ 2
    rw [if_pos starts, whole, List.head?_map, line]
    rfl

theorem hashCommentExtent (text : List Char) :
    (seq (char '#') toLineEnd).extent text = hashComment text := by
  cases text with
  | nil => rfl
  | cons c rest =>
    have line := lineExtent rest
    rw [extent] at line
    rw [extent, charSeqEnds, hashComment]
    by_cases same : c = '#'
    · subst same
      simp [startsWith, after, line, CStyle.toLineEnd, isBreak, Nat.add_comm]
    · rw [if_neg same, if_neg (by simp [startsWith, after, Ne.symm same])]
      rfl

theorem starsMore {last : Expression} (never : ∀ rest, last.ends ('*' :: rest) = [])
    (rest : List Char) :
    (seq (plus true (char '*')) last).ends ('*' :: '*' :: rest) =
      ((seq (plus true (char '*')) last).ends ('*' :: rest)).map (1 + ·) := by
  rw [plus, seqAssoc, seqAssoc, charSeqEnds, charSeqEnds, if_pos rfl, if_pos rfl,
    starSeqStep (charEnds '*' '*' rest) (by simp) (never rest)]
  rfl

theorem starsLast {last : Expression} {c : Char} (other : c ≠ '*') (rest : List Char) :
    (seq (plus true (char '*')) last).ends ('*' :: c :: rest) =
      (last.ends (c :: rest)).map (1 + ·) := by
  rw [plus, seqAssoc, charSeqEnds, if_pos rfl,
    starSeqStuck (by rw [charEnds, if_neg other])]

theorem starsNone {last : Expression} {c : Char} (other : c ≠ '*') (rest : List Char) :
    (seq (plus true (char '*')) last).ends (c :: rest) = [] := by
  rw [plus, seqAssoc, charSeqEnds, if_neg other]

def blockPart : Expression := .alt (but ['*']) starRun

def blockClose : Expression := .seq (plus true (char '*')) (char '/')

def blockRest : Expression := .seq (.star true blockPart) blockClose

theorem blockPartStar (rest : List Char) :
    blockPart.ends ('*' :: rest) = starRun.ends ('*' :: rest) := by
  rw [blockPart, altEnds, butEnds, if_pos (by simp), List.nil_append]

theorem blockPartFilled (rest : List Char) : 0 ∉ blockPart.ends ('*' :: rest) := by
  rw [blockPartStar, starRun, plus, seqAssoc]
  exact charSeqFilled '*' _ _

theorem blockRestRound (rest : List Char) :
    blockRest.ends ('*' :: rest) =
      ((blockPart.ends ('*' :: rest)).flatMap fun n =>
        (blockRest.ends (('*' :: rest).drop n)).map (n + ·)) ++ blockClose.ends ('*' :: rest) := by
  conv => lhs; rw [blockRest, starSeqRound (blockPartFilled rest), seqEnds]
  rfl

theorem blockRestMore (rest : List Char) :
    blockRest.ends ('*' :: '*' :: rest) = (blockRest.ends ('*' :: rest)).map (1 + ·) := by
  have part : blockPart.ends ('*' :: '*' :: rest) =
      (blockPart.ends ('*' :: rest)).map (1 + ·) := by
    rw [blockPartStar, blockPartStar]
    exact starsMore (fun behind => butEnds ['*', '/'] '*' behind) rest
  have last : blockClose.ends ('*' :: '*' :: rest) = (blockClose.ends ('*' :: rest)).map (1 + ·) :=
    starsMore (fun behind => charEnds '/' '*' behind) rest
  rw [blockRestRound, blockRestRound, part, last, List.map_append, List.map_flatMap,
    List.flatMap_map]
  congr 2
  funext n
  rw [shiftTwice, Nat.add_comm 1 n]
  rfl

theorem blockRestPast {c : Char} (other : c ≠ '*') (inner : c ≠ '/') (rest : List Char) :
    blockRest.ends ('*' :: c :: rest) = (blockRest.ends rest).map (2 + ·) := by
  have part : blockPart.ends ('*' :: c :: rest) = [2] := by
    rw [blockPartStar, starRun, starsLast other, butEnds, if_neg (by simp [other, inner])]
    rfl
  have last : blockClose.ends ('*' :: c :: rest) = [] := by
    rw [blockClose, starsLast other, charEnds, if_neg inner]
    rfl
  exact starSeqStep part (by simp) last

theorem blockRestPlain {c : Char} (other : c ≠ '*') (rest : List Char) :
    blockRest.ends (c :: rest) = (blockRest.ends rest).map (1 + ·) := by
  have part : blockPart.ends (c :: rest) = [1] := by
    rw [blockPart, altEnds, butEnds, if_neg (by simp [other]), starRun, starsNone other]
    rfl
  exact starSeqStep part (by simp) (starsNone other rest)

theorem blockRestClose (rest : List Char) : blockRest.ends ('*' :: '/' :: rest) = [2] := by
  have part : blockPart.ends ('*' :: '/' :: rest) = [] := by
    rw [blockPartStar, starRun, starsLast (by decide), butEnds, if_pos (by simp)]
    rfl
  rw [blockRest, starSeqStuck part, blockClose, starsLast (by decide), charEnds, if_pos rfl]
  rfl

theorem blockRestEnds : (text : List Char) →
    blockRest.ends text = (through ['*', '/'] text).toList
  | [] => rfl
  | [c] => by
    by_cases star : c = '*'
    · subst star
      rfl
    · rw [blockRestPlain star, blockRestEnds [], throughLater (by simp [startsWith, after])]
      rfl
  | c :: d :: rest => by
    by_cases star : c = '*'
    · subst star
      by_cases more : d = '*'
      · subst more
        rw [blockRestMore, blockRestEnds ('*' :: rest), toListLater]
        have other : startsWith ['*', '/'] ('*' :: '*' :: rest) = false := by
          simp [startsWith, after]
        rw [throughLater other]
      · by_cases slash : d = '/'
        · subst slash
          have starts : startsWith ['*', '/'] ('*' :: '/' :: rest) = true :=
            startsWithIff.mpr ⟨rest, rfl⟩
          rw [blockRestClose, throughHere starts]
          rfl
        · rw [blockRestPast more slash, blockRestEnds rest, toListLater,
            throughLater (c := '*') (by simp [startsWith, after, Ne.symm slash]),
            throughLater (c := d) (by simp [startsWith, after, Ne.symm more]), Option.map_map]
          rfl
    · rw [blockRestPlain star, blockRestEnds (d :: rest), toListLater,
        throughLater (c := c) (by simp [startsWith, after, Ne.symm star])]

theorem blockWithinEnds (text : List Char) :
    blockWithin.ends text = (CStyle.blockComment text).toList := by
  show (word ['/', '*'] blockRest).ends text = _
  rw [wordEnds, CStyle.blockComment]
  cases after ['/', '*'] text with
  | none => rfl
  | some inside =>
    simp only [blockRestEnds, bind, Option.bind]
    cases through ['*', '/'] inside with
    | none => rfl
    | some body => simp [Nat.add_comm]

theorem lineRestEnds (text : List Char) :
    (seq (.star true (but ['\n'])) (char '\n')).ends text = (through ['\n'] text).toList := by
  induction text with
  | nil => rfl
  | cons c rest ih =>
    by_cases feed : c = '\n'
    · subst feed
      have starts : startsWith ['\n'] ('\n' :: rest) = true := startsWithIff.mpr ⟨rest, rfl⟩
      rw [starSeqStuck (by rw [butEnds, if_pos (by simp)]), charEnds, if_pos rfl,
        throughHere starts]
      rfl
    · rw [starSeqStep (by rw [butEnds, if_neg (by simp [feed])]) (by simp)
        (by rw [charEnds, if_neg feed]), List.drop_one, List.tail_cons, ih, toListLater,
        throughLater (c := c) (by simp [startsWith, after, Ne.symm feed])]

theorem lineWithinEnds (text : List Char) :
    lineWithin.ends text = (innerLineComment text).toList := by
  rw [lineWithin, wordEnds, innerLineComment]
  cases after ['/', '/'] text with
  | none => rfl
  | some inside =>
    simp only [lineRestEnds, bind, Option.bind]
    cases through ['\n'] inside with
    | none => rfl
    | some body => simp [Nat.add_comm]

theorem innerCommentEnds (text : List Char) :
    innerComment.ends text = (CStyle.blockComment text <|> innerLineComment text).toList := by
  rw [innerComment, altEnds, blockWithinEnds, lineWithinEnds]
  cases block : CStyle.blockComment text with
  | none => simp
  | some n =>
    -- A second character cannot be both a star and a slash.
    have apart : innerLineComment text = none := by
      simp only [CStyle.blockComment, bind, Option.bind_eq_some_iff] at block
      obtain ⟨inside, opened, -⟩ := block
      obtain rfl := afterSome.mp opened
      rfl
    rw [apart]
    rfl

theorem innerCommentSlash {c : Char} (other : c ≠ '/') (last : Expression) (rest : List Char) :
    (seq innerComment last).ends (c :: rest) = [] := by
  have none : innerComment.ends (c :: rest) = [] := by
    rw [innerComment, altEnds, blockWithin, lineWithin, wordEnds, wordEnds]
    simp [after, Ne.symm other]
  rw [seqEnds, none]
  rfl

theorem jsxCommentEnds (text : List Char) :
    jsxComment.ends text = (CStyle.jsxComment text).toList := by
  cases text with
  | nil => rfl
  | cons c inside =>
    rw [jsxComment, charSeqEnds]
    by_cases brace : c = '\x7b'
    · subst brace
      rw [if_pos rfl, space, runSeqEnds]
      · simp only [CStyle.jsxComment, bind, Option.bind]
        rw [seqEnds, innerCommentEnds]
        cases CStyle.blockComment (inside.drop (inside.takeWhile isWhite).length) <|>
            innerLineComment (inside.drop (inside.takeWhile isWhite).length) with
        | none => rfl
        | some comment =>
          simp only [Option.toList_some, List.flatMap_singleton]
          rw [runSeqEnds, charHead]
          · split
            · simp
              omega
            · rfl
          · intro c rest white
            rw [charEnds, if_neg]
            intro same
            subst same
            exact absurd white (by decide)
      · intro c rest white
        refine innerCommentSlash ?_ _ rest
        intro same
        subst same
        exact absurd white (by decide)
    · rw [if_neg brace, CStyle.jsxComment]
      · rfl
      · intro rest same
        cases same
        exact brace rfl

theorem endsExtent {e : Expression} {text : List Char} {found : Option Nat}
    (same : e.ends text = found.toList) : e.extent text = found := by
  rw [extent, same]
  cases found <;> rfl

end Form

theorem expressionExtent (branch : Branch) (text : List Char) :
    branch.expression.extent text = branch.extent text := by
  cases branch with
  | jsxComment => exact Form.endsExtent (Form.jsxCommentEnds text)
  | singleQuoted | doubleQuoted | templateLiteral =>
    exact Form.endsExtent (Form.quotedEnds (by decide) text)
  | cssUrl => exact Form.endsExtent (Form.cssUrlEnds text)
  | regexLiteral => exact Form.regexLiteralExtent text
  | blockComment => exact Form.blockCommentExtent text
  | lineComment => exact Form.lineCommentExtent text
  | hashComment => exact Form.hashCommentExtent text

end CommentStrip.CStyle
