import CommentStrip.Proofs.CStyle.Partition
import CommentStrip.Proofs.CStyle.Rescan
import CommentStrip.Proofs.Text.Trim
import Mathlib.Data.List.Forall2

/-! The spans of a text with and without brace expressions. A brace expression is the comment that
is found in its place without it, with the braces and the white space around; all other spans are
the same. -/
namespace CommentStrip.CStyle
open Unicode Text

def branched (spans : List Placed) : List Placed := spans.filter fun s => s.2.2.branch.isSome

structure Braced (keep : KeepSet) (outer inner : Placed) : Prop where
  brace : outer.2.2.branch = some .jsxComment
  comment : inner.2.2.branch = some .blockComment ∨ inner.2.2.branch = some .lineComment
  opens : outer.1 < inner.1
  closes : inner.2.1 < outer.2.1
  around : ∃ lead trail,
    outer.2.2.text = '\x7b' :: lead ++ inner.2.2.text ++ (trail ++ ['\x7d']) ∧
      (∀ c ∈ lead, isWhite c = true) ∧ (∀ c ∈ trail, isWhite c = true) ∧
      inner.1 = outer.1 + byteLength ('\x7b' :: lead) ∧
      outer.2.1 = inner.2.1 + byteLength (trail ++ ['\x7d'])
  seen : candidate .jsxComment outer.2.2.text = trimEnd inner.2.2.text
  judged : outer.2.2.kind = if keep.holds (trimEnd inner.2.2.text) then .code else .comment

def Aligned (keep : KeepSet) (s t : Placed) : Prop :=
  s.2.2.branch ≠ some .jsxComment ∧ t = s ∨ Braced keep s t

theorem branchedGap (keep : KeepSet) (position : Nat) (gap : List Char)
    (later : List (Piece Find)) :
    branched (offsets position ((Alternation.closeGap gap later).map (classified keep))) =
      branched (offsets (position + byteLength gap) (later.map (classified keep))) := by
  unfold Alternation.closeGap
  split
  · rename_i empty
    rw [List.isEmpty_iff.mp empty]
    rfl
  · simp [branched, offsets, classified, byteLengthReverse]

theorem branchedHit (keep : KeepSet) (position : Nat) (found : Find) (taken : List Char)
    (later : List (Piece Find)) :
    branched (offsets position ((Piece.hit found taken :: later).map (classified keep))) =
      (position, position + byteLength taken, classified keep (.hit found taken)) ::
        branched (offsets (position + byteLength taken) (later.map (classified keep))) := by
  simp [branched, offsets, classified]

theorem whiteUnled {c : Char} (white : isWhite c = true) (rest : List Char) :
    ledBy (c :: rest) = none := by
  have other : ∀ d, isWhite d = false → c ≠ d := by
    rintro d solid rfl
    rw [white] at solid
    cases solid
  simp only [ledBy, other '/' (by decide), other '\'' (by decide), other '"' (by decide),
    other '\x60' (by decide), other 'u' (by decide), other '#' (by decide),
    other '\x7b' (by decide), if_false]

theorem closeUnled {trail : List Char} (trails : ∀ c ∈ trail, isWhite c = true) :
    ∀ c ∈ trail ++ ['\x7d'], ∀ rest, ledBy (c :: rest) = none := by
  intro c member rest
  rcases List.mem_append.mp member with white | last
  · exact whiteUnled (trails c white) rest
  · cases List.mem_singleton.mp last
    rfl

theorem endsFirstFeed {inner : List Char} (first : EndsFirst ['\n'] inner) : '\n' ∉ inner := by
  intro feed
  obtain ⟨front, back, rfl⟩ := List.append_of_mem feed
  have none := first front (back ++ ['\n']) (by simp)
  simp at none

theorem innerLexeme {whole rest : List Char} (inner : InnerComment whole)
    (paired : Paired (whole ++ rest)) :
    ∃ branch comment space, whole = comment ++ space ∧ (∀ c ∈ space, isWhite c = true) ∧
      (branch = .blockComment ∨ branch = .lineComment) ∧
      Lexeme branch comment (space ++ rest) := by
  cases inner with
  | block first =>
    exact ⟨.blockComment, _, [], (List.append_nil _).symm, List.forall_mem_nil _, .inl rfl,
      .blockComment first⟩
  | @line inner first =>
    have line : Paired (inner ++ '\n' :: rest) := by
      simpa using Paired.behind (s := ['/', '/']) (by simpa using paired)
    obtain ⟨front, carried, rfl, last, inLine⟩ := line.line (endsFirstFeed first)
    have breaks : ∀ c ∈ carried ++ ['\n'], isBreak c = true := by
      rcases last with rfl | rfl <;> simp [isBreak]
    refine ⟨.lineComment, ['/', '/'] ++ front, carried ++ ['\n'], by simp, ?_, .inr rfl,
      .lineComment ⟨inLine, ?_⟩⟩
    · intro c member
      exact breakWhite (breaks c member)
    · intro c begins
      rcases last with rfl | rfl <;> cases begins <;> rfl

structure BraceForm (branch : Branch) (lead comment trail rest : List Char) : Prop where
  leads : ∀ c ∈ lead, isWhite c = true
  trails : ∀ c ∈ trail, isWhite c = true
  kind : branch = .blockComment ∨ branch = .lineComment
  lexeme : Lexeme branch comment ((trail ++ ['\x7d']) ++ rest)

theorem braceParts {here : List Char} (paired : Paired here) {n : Nat}
    (found : jsxComment here = some n) :
    ∃ branch lead comment trail rest, BraceForm branch lead comment trail rest ∧
      here = ('\x7b' :: lead) ++ (comment ++ ((trail ++ ['\x7d']) ++ rest)) ∧
      ('\x7b' :: lead ++ comment ++ (trail ++ ['\x7d'])).length = n := by
  obtain ⟨taken, rest, rfl, rfl, lead, whole, trail, parts, rfl⟩ := (jsxTakes here n).mp found
  have body : Paired (whole ++ ((trail ++ ['\x7d']) ++ rest)) :=
    Paired.behind (s := '\x7b' :: lead) (by simpa [braced] using paired)
  obtain ⟨branch, comment, space, rfl, blank, kind, lexeme⟩ := innerLexeme parts.inner body
  refine ⟨branch, lead, comment, space ++ trail, rest, ⟨parts.leads, ?_, kind, ?_⟩, ?_, ?_⟩
  · intro c member
    exact (List.mem_append.mp member).elim (blank c) (parts.trails c)
  · simpa using lexeme
  · simp [braced]
  · simp [braced]

section
variable {o : Options}

theorem unledQuiet {raw : List Char} (unled : ∀ c ∈ raw, ∀ rest, ledBy (c :: rest) = none)
    (before behind : List Char) : (alternation o).Quiet accepts before raw behind :=
  Alternation.quietEach (fun c member _ rest => unledPassed (unled c member rest)) before behind

theorem bracePassed {before rest : List Char} :
    (alternation o.withoutBraces).accepted? accepts before ('\x7b' :: rest) = none := by
  rw [Option.eq_none_iff_forall_ne_some]
  intro found spoke
  obtain ⟨taken, behind, same, -, applies⟩ := (acceptedIff rfl).mp spoke
  have leads := lexemeLeads applies.lexeme
  rw [← same] at leads
  exact appliesOther applies (Option.some.inj leads).symm

theorem searchBraced (lines : o.lineComments = true) {branch : Branch}
    {lead comment trail rest : List Char} (form : BraceForm branch lead comment trail rest)
    (before gap : List Char) :
    (alternation o.withoutBraces).searchFrom accepts before gap
        (('\x7b' :: lead) ++ (comment ++ ((trail ++ ['\x7d']) ++ rest))) =
      Alternation.closeGap (('\x7b' :: lead).reverse ++ gap)
        (.hit ⟨branch, comment.length⟩ comment ::
          (alternation o.withoutBraces).searchFrom accepts
            (('\x7b' :: lead ++ comment ++ (trail ++ ['\x7d'])).reverse ++ before)
            (trail ++ ['\x7d']).reverse rest) := by
  have opening : (alternation o.withoutBraces).Quiet accepts before ('\x7b' :: lead)
      (comment ++ ((trail ++ ['\x7d']) ++ rest)) :=
    Alternation.quietCons bracePassed
      (unledQuiet (fun c member => whiteUnled (form.leads c member)) _ _)
  have applies : Applies o.withoutBraces (('\x7b' :: lead).reverse ++ before) branch comment
      ((trail ++ ['\x7d']) ++ rest) := by
    refine ⟨?_, form.lexeme, ?_⟩
    · rcases form.kind with rfl | rfl
      · trivial
      · exact lines
    · rcases form.kind with rfl | rfl <;> trivial
  have spoke : (alternation o.withoutBraces).accepted? accepts
      (('\x7b' :: lead).reverse ++ before) (comment ++ ((trail ++ ['\x7d']) ++ rest)) =
        some ⟨branch, comment.length⟩ :=
    (acceptedIff rfl).mpr ⟨comment, (trail ++ ['\x7d']) ++ rest, rfl, rfl, applies⟩
  rw [Alternation.searchQuiet opening,
    Alternation.searchTaken (lexemeFilled form.lexeme) rfl spoke,
    Alternation.searchQuiet (unledQuiet (closeUnled form.trails) _ _)]
  simp

end

theorem braceCandidate {branch : Branch} {lead comment trail rest : List Char}
    (form : BraceForm branch lead comment trail rest) :
    candidate .jsxComment ('\x7b' :: lead ++ comment ++ (trail ++ ['\x7d'])) = trimEnd comment := by
  have comments : branch.isComment = true := by rcases form.kind with rfl | rfl <;> rfl
  obtain ⟨c, inner, rfl, mark⟩ := commentHead form.lexeme comments
  have solid : isWhite c = false := by rcases mark with rfl | rfl <;> decide
  have whole : '\x7b' :: lead ++ c :: inner ++ (trail ++ ['\x7d']) =
      '\x7b' :: (lead ++ (c :: inner ++ trail) ++ ['\x7d']) := by simp
  have started : (lead ++ (c :: inner ++ trail)).dropWhile isWhite = c :: inner ++ trail := by
    rw [List.dropWhile_append_of_pos form.leads]
    exact List.dropWhile_cons_of_neg (by simp [solid])
  rw [candidate, if_pos rfl, whole, jsxInner]
  simp only [List.head?_cons, if_true, List.tail_cons, List.getLast?_concat, List.dropLast_concat]
  rw [trim, trimStart, started, trimEnd, dropEndBehind _ form.trails]

theorem bracedAt (keep : KeepSet) (place : Nat) {found : Find} (brace : found.branch = .jsxComment)
    {branch : Branch} {lead comment trail rest : List Char}
    (form : BraceForm branch lead comment trail rest) :
    let outer := '\x7b' :: lead ++ comment ++ (trail ++ ['\x7d'])
    let start := place + byteLength ('\x7b' :: lead)
    Braced keep (place, place + byteLength outer, classified keep (.hit found outer))
      (start, start + byteLength comment,
        classified keep (.hit ⟨branch, comment.length⟩ comment)) := by
  intro outer start
  have seen : candidate .jsxComment outer = trimEnd comment := braceCandidate form
  have stop : place + byteLength outer =
      start + byteLength comment + byteLength (trail ++ ['\x7d']) := by
    simp only [outer, start, byteLengthAppend]
    omega
  refine ⟨congrArg some brace, form.kind.imp (congrArg some) (congrArg some), ?_, ?_,
    ⟨lead, trail, rfl, form.leads, form.trails, rfl, stop⟩, seen, ?_⟩
  · have filled : 0 < byteLength ('\x7b' :: lead) := byteLengthPositive (by simp)
    show place < start
    omega
  · have filled : 0 < byteLength (trail ++ ['\x7d']) := byteLengthPositive (by simp)
    show start + byteLength comment < place + byteLength outer
    omega
  · show kindOf keep found.branch outer = _
    rw [kindOf, brace, seen]
    rfl

theorem bracedTaken {o : Options} {before rest : List Char} {c : Char} {found : Find}
    (paired : Paired (c :: rest)) (brace : found.branch = .jsxComment)
    (spoke : (alternation o).accepted? accepts before (c :: rest) = some found) :
    ∃ branch lead comment trail,
      BraceForm branch lead comment trail (rest.drop (found.width - 1)) ∧
      c :: rest = ('\x7b' :: lead) ++
        (comment ++ ((trail ++ ['\x7d']) ++ rest.drop (found.width - 1))) ∧
      c :: rest.take (found.width - 1) = '\x7b' :: lead ++ comment ++ (trail ++ ['\x7d']) := by
  have reads := (matchReads (Alternation.acceptedMatch spoke).1).2
  rw [brace] at reads
  obtain ⟨width, extent, rfl⟩ := Option.map_eq_some_iff.mp reads
  obtain ⟨branch, lead, comment, trail, behind, form, split, long⟩ := braceParts paired extent
  have outer : c :: rest =
      ('\x7b' :: lead ++ comment ++ (trail ++ ['\x7d'])) ++ behind := by simpa using split
  obtain ⟨front, back⟩ := frontTaken outer (by simp)
  rw [long] at front back
  subst back
  exact ⟨branch, lead, comment, trail, form, split, front.symm⟩

/- The spans from a place on. The gaps in front of it need not be the same. -/
theorem searchAligned {o : Options} (lines : o.lineComments = true) (keep : KeepSet)
    {before here : List Char} (paired : Paired here) (p q : Nat) (gap other : List Char)
    (place : p + byteLength gap = q + byteLength other) :
    List.Forall₂ (Aligned keep)
      (branched (offsets p (((alternation o).searchFrom accepts before gap here).map
        (classified keep))))
      (branched (offsets q (((alternation o.withoutBraces).searchFrom accepts before other
        here).map (classified keep)))) := by
  fun_induction Alternation.searchFrom (alternation o) accepts before gap here
      generalizing p q other with
  | case1 before gap =>
    rw [Alternation.searchFrom, branchedGap, branchedGap]
    exact .nil
  | case2 before gap c rest found spoke more taken ih =>
    have onward : Paired (rest.drop more) := by
      have whole : Paired (taken ++ rest.drop more) := by simpa [taken] using paired
      exact whole.behind
    rw [branchedGap, branchedHit]
    by_cases brace : found.branch = .jsxComment
    · obtain ⟨branch, lead, comment, trail, form, split, whole⟩ := bracedTaken paired brace spoke
      have takenWhole : taken = '\x7b' :: lead ++ comment ++ (trail ++ ['\x7d']) := whole
      have entry : q + byteLength (('\x7b' :: lead).reverse ++ other) =
          p + byteLength gap + byteLength ('\x7b' :: lead) := by
        rw [byteLengthAppend, byteLengthReverse]
        omega
      rw [split, searchBraced lines form, branchedGap, branchedHit, entry, takenWhole]
      rw [takenWhole] at ih
      refine .cons (.inr (bracedAt keep _ brace form)) (ih onward _ _ _ ?_)
      rw [byteLengthReverse, byteLengthAppend, byteLengthAppend, byteLengthNil]
      omega
    · have same := (acceptedBraceless brace).mp spoke
      rw [Alternation.searchOver same, branchedGap, branchedHit, ← place]
      exact .cons (.inl ⟨by simpa [classified] using brace, rfl⟩) (ih onward _ _ [] rfl)
  | case3 before gap c rest passed ih =>
    rw [Alternation.searchPast (passedPlain passed)]
    apply ih (Paired.behind (s := [c]) paired)
    rw [byteLengthCons, byteLengthCons]
    omega

/- With brace expressions no span is found that is not found without them, and none is missed. -/
theorem braceSpansAlign (keep : KeepSet) {text : List Char} (paired : Paired text) :
    List.Forall₂ (Aligned keep)
      (branched (offsets 0 (classify (.script true) keep text)))
      (branched (offsets 0 (classify (.script false) keep text))) :=
  searchAligned (o := .script true) rfl keep paired 0 0 [] [] rfl

theorem braceSpansAlignTag :
    let text := "<a>\x7b // c \r\n\x7d</a> 'x'".toList
    Paired text ∧
      List.Forall₂ (Aligned .empty)
        [(3, 13, ⟨"\x7b // c \r\n\x7d".toList, .comment, some .jsxComment⟩),
          (18, 21, ⟨"'x'".toList, .literal, some .singleQuoted⟩)]
        [(5, 10, ⟨"// c ".toList, .comment, some .lineComment⟩),
          (18, 21, ⟨"'x'".toList, .literal, some .singleQuoted⟩)] := by
  intro text
  have paired : Paired text := by decide
  have aligned := braceSpansAlign .empty paired
  refine ⟨paired, ?_⟩
  convert aligned using 1
  · decide +kernel
  · decide +kernel

/- Behind a lone carriage return a brace expression takes code with it. -/
example :
    branched (offsets 0 (classify (.script true) .empty "<a>\x7b//\rx\n\x7d".toList)) =
        [(3, 10, ⟨"\x7b//\rx\n\x7d".toList, .comment, some .jsxComment⟩)] ∧
      branched (offsets 0 (classify (.script false) .empty "<a>\x7b//\rx\n\x7d".toList)) =
        [(4, 6, ⟨"//".toList, .comment, some .lineComment⟩)] := by decide +kernel

end CommentStrip.CStyle
