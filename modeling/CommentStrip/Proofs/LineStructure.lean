import CommentStrip.Proofs.Places
import CommentStrip.Proofs.Python.StripAgain
import CommentStrip.Proofs.Text.Thinned

/-! Where comments vanish they leave the lines of the text: three scans, and none of them takes a
line feed. -/
namespace CommentStrip
open Text

namespace Python

theorem tokensInLine {st : State} {offset : Nat} {text : List Char} {tokens : List Token}
    (lexed : Lexes st offset text tokens) :
    ∀ t ∈ tokens, t.kind = .comment ∨ t.kind = .whitespace → '\n' ∉ t.text := by
  induction lexed with
  | done => exact List.forall_mem_nil _
  | @token st offset c s x found later taken whole rest ih =>
    refine List.forall_mem_cons.mpr ⟨?_, ih⟩
    intro kind feed
    rcases kind with comment | white
    · cases cutNext taken with
      | comment first =>
        subst first
        rcases List.mem_cons.mp feed with bad | inside
        · cases bad
        · rw [← takeWhileAll whole] at inside
          have inLine := List.all_eq_true.mp List.all_takeWhile '\n' inside
          cases inLine
      | lineBreak => rcases breakKindBreak st with kind | kind <;> simp [kind] at comment
      | _ => simp at comment
    · have blank := (whitespaceEnds taken whole white).1 '\n' feed
      cases blank

theorem remainingThinned (keep : KeepSet) (atStart : Bool) {tokens : List Token}
    (inLine : ∀ t ∈ tokens, t.kind = .comment ∨ t.kind = .whitespace → '\n' ∉ t.text) :
    Thinned (textOf tokens) (textOf (remaining keep atStart tokens)) := by
  induction tokens generalizing atStart with
  | nil => exact .nil
  | cons t later ih =>
    obtain ⟨here, behind⟩ := List.forall_mem_cons.mp inLine
    have rest := ih false behind
    have stays : Thinned (t.text ++ textOf later)
        (t.text ++ textOf (remaining keep false later)) := (Thinned.refl t.text).append rest
    have goes : '\n' ∉ t.text →
        Thinned (t.text ++ textOf later) ([] ++ textOf (remaining keep false later)) :=
      fun within => (Thinned.none within).append rest
    rw [remaining]
    split
    · rename_i comment
      split
      · exact stays
      · exact goes (here (.inl comment))
    · split
      · rename_i dropped
        exact goes (here (.inr dropped.1))
      · exact stays

theorem stripThinned {keep : KeepSet} {text stripped : List Char} {tally : Tally}
    (accepted : strip keep text = .ok (stripped, tally)) : Thinned text stripped := by
  obtain ⟨tokens, tokenized, rfl, -⟩ := stripTaken accepted
  have thinned := remainingThinned keep true (tokensInLine (tokenizeIff.mp tokenized))
  rwa [tokenizeText tokenized] at thinned

theorem scanLineThinned {body terminator rest : List Char} (cut : LineCut body terminator rest)
    (keep : KeepSet) (first : Bool) (st : QuoteState) :
    Thinned (body ++ terminator) (scanLine keep first st (body ++ terminator)).text := by
  simp only [scanLine, cut.split]
  split
  · exact .refl _
  · rename_i n found
    split
    · exact .refl _
    · have begins : trimEnd (body.take n) <+: body :=
        (dropEndWhilePrefix _ _).trans (List.take_prefix n body)
      exact (Thinned.front begins cut.within).append (.refl terminator)

theorem lineScanThinned (keep : KeepSet) (text : List Char) :
    Thinned text (lineScan keep text).1 := by
  have scanned : ∀ first st, Thinned text
      ((scanLines keep first st (linesInclusive text)).flatMap LineResult.text) := by
    induction text using lineInduction with
    | empty => exact fun _ _ => .nil
    | line cut filled ih =>
      intro first st
      rw [cut.lines filled]
      exact (scanLineThinned cut keep first st).append (ih false _)
  exact scanned true .initial

end Python

namespace CStyle

theorem cleanedThinned (c : Classified) : Thinned c.text (cleaned c) := by
  unfold cleaned
  split
  · exact .collapse c.text
  · exact (Blanked.whole c.text).thinned
  · exact .refl c.text

theorem scanThinned (o : Options) (keep : KeepSet) (text : List Char) :
    Thinned text (scan o keep text).1 := by
  have whole : (classify o keep text).flatMap Classified.text = text := classifyText o keep text
  have thinned := Thinned.flatMap fun c (_ : c ∈ classify o keep text) => cleanedThinned c
  rwa [whole] at thinned

end CStyle

namespace Engine

theorem pythonThinned (keep : KeepSet) (text : List Char) :
    Thinned text (stripPython keep text).text := by
  cases accepted : Python.strip keep text with
  | ok result =>
    simp only [stripPython, accepted]
    exact Python.stripThinned accepted
  | error fault =>
    simp only [stripPython, accepted]
    exact Python.lineScanThinned keep text

/- Lines neither join nor part, and nothing moves from one to another. -/
theorem stripKeepsLines (e : Engine) {family : Family} (vanish : family.blanks = false)
    (text : List Char) : LinesKept text (e.strip family text).text := by
  apply Thinned.linesKept
  cases family with
  | python => exact pythonThinned e.keep text
  | script jsx => exact CStyle.scanThinned (.script jsx) e.keep text
  | stylesheet lineComments | php | markup variant => cases vanish

theorem stripKeepsLinesBraces :
    Family.blanks (.script true) = false ∧
      ((withoutPhp .empty).strip (.script true) "<a>\x7b/*\n*/\x7d b</a> // c\n".toList).text =
        "<a>\n b</a>     \n".toList ∧
      LinesKept "<a>\x7b/*\n*/\x7d b</a> // c\n".toList
        ((withoutPhp .empty).strip (.script true) "<a>\x7b/*\n*/\x7d b</a> // c\n".toList).text :=
  ⟨rfl, by decide +kernel, stripKeepsLines (withoutPhp .empty) rfl _⟩

end Engine
end CommentStrip
