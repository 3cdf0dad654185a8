import CommentStrip.Proofs.CStyle.SecondScan
import CommentStrip.Proofs.Counting
import CommentStrip.Proofs.Markup.Jinja

/-! A second pass of the engine over what the first one left. It changes the text only if it
removes a comment, and it can find one only where what stood in front of a place, or around it,
was read and is now blank. -/
namespace CommentStrip.Engine
open Text

theorem pythonTwice {keep : KeepSet} {text : List Char}
    (stays : (stripPython keep text).usedFallback = true →
      (stripPython keep (stripPython keep text).text).usedFallback = true) :
    (stripPython keep (stripPython keep text).text).text = (stripPython keep text).text := by
  cases accepted : Python.strip keep text with
  | ok result =>
    obtain ⟨stripped, tally⟩ := result
    have first : stripPython keep text = ⟨stripped, tally, false, []⟩ := by
      simp only [stripPython, accepted]
    have second : stripPython keep stripped = ⟨stripped, ⟨0, tally.kept⟩, false, []⟩ := by
      simp only [stripPython, Python.stripAgain accepted]
    rw [first]
    show (stripPython keep stripped).text = stripped
    rw [second]
  | error fault =>
    have first : stripPython keep text =
        ⟨(Python.lineScan keep text).1, (Python.lineScan keep text).2, true, []⟩ := by
      simp only [stripPython, accepted]
    rw [first] at stays ⊢
    have degraded := stays rfl
    cases acceptedNow : Python.strip keep (Python.lineScan keep text).1 with
    | ok result =>
      simp only [stripPython, acceptedNow] at degraded
      cases degraded
    | error fault =>
      simp only [stripPython, acceptedNow]
      rw [Python.lineScanAgain]

/- What a pass reads besides the comments themselves is the same in the text and in what is left
of it. -/
def ContextStays (keep : KeepSet) (text : List Char) : Family → Prop
  | .python =>
    ((withoutPhp keep).strip .python text).usedFallback = true →
      ((withoutPhp keep).strip .python
        ((withoutPhp keep).strip .python text).text).usedFallback = true
  | .script false =>
    CStyle.SameRegexes (.script false) text ((withoutPhp keep).strip (.script false) text).text
  | .script true => CStyle.SameOpenings (.script true) keep text
  | .stylesheet _ => True
  | .php => CStyle.SameRegexes .php text ((withoutPhp keep).strip .php text).text
  | .markup .jinja =>
    let first := ((withoutPhp keep).strip (.markup .html) text).text
    let stripped := ((withoutPhp keep).strip (.markup .jinja) text).text
    -- The HTML scan has nothing more to remove, as it has not when the Jinja comments that went
    -- hid none of its blocks and lay in none of its finds.
    ((withoutPhp keep).strip (.markup .html) stripped).tally.removed = 0 ∨
      Markup.SameBlocks .html keep text first ∧
        (Markup.alternation .html).SameFinds Markup.accepts first stripped
  | .markup variant =>
    Markup.SameBlocks variant keep text ((withoutPhp keep).strip (.markup variant) text).text

theorem contextTwice {keep : KeepSet} {text : List Char} {family : Family}
    (stays : ContextStays keep text family) :
    ((withoutPhp keep).strip family ((withoutPhp keep).strip family text).text).text =
      ((withoutPhp keep).strip family text).text := by
  cases family with
  | python => exact pythonTwice stays
  | script jsx =>
    cases jsx with
    | false => exact congrArg Prod.fst (CStyle.scanTwice rfl keep text fun _ => stays)
    | true => exact congrArg Prod.fst (CStyle.scanAgain stays)
  | stylesheet lineComments =>
    exact congrArg Prod.fst (CStyle.scanTwice rfl keep text fun enabled => by cases enabled)
  | php => exact congrArg Prod.fst (CStyle.scanTwice rfl keep text fun _ => stays)
  | markup variant =>
    cases variant with
    | html | blade => exact Markup.scanTwice Php.noDelegateFails (by decide) stays
    | jinja =>
      refine (Markup.jinjaTwice keep Php.noDelegateFails text).mpr (stays.elim id fun parts => ?_)
      exact Markup.jinjaSettles Php.noDelegateFails parts.1 parts.2

/- A second pass changes the text exactly when it removes a comment, and removes none where the
context of every place stays. -/
theorem secondPass (family : Family) (keep : KeepSet) (text : List Char) :
    (((withoutPhp keep).strip family ((withoutPhp keep).strip family text).text).text =
        ((withoutPhp keep).strip family text).text ↔
      ((withoutPhp keep).strip family
        ((withoutPhp keep).strip family text).text).tally.removed = 0) ∧
    (ContextStays keep text family →
      ((withoutPhp keep).strip family ((withoutPhp keep).strip family text).text).text =
        ((withoutPhp keep).strip family text).text) :=
  ⟨(stripRemoval (withoutPhp keep) Php.noDelegateFails family _).same, contextTwice⟩

theorem secondPassScript :
    ContextStays .empty "a = /\"/ // \"b".toList (.script false) ∧
      ((withoutPhp .empty).strip (.script false)
        ((withoutPhp .empty).strip (.script false) "a = /\"/ // \"b".toList).text).text =
          ((withoutPhp .empty).strip (.script false) "a = /\"/ // \"b".toList).text := by
  have stays : ContextStays .empty "a = /\"/ // \"b".toList (.script false) := by
    have once : ((withoutPhp .empty).strip (.script false) "a = /\"/ // \"b".toList).text =
        "a = /\"/      ".toList := by decide +kernel
    refine CStyle.sameRegexesEverywhere ?_
    rw [once]
    decide +kernel
  exact ⟨stays, (secondPass (.script false) .empty _).2 stays⟩

example : ContextStays .empty "<a>\x7b/* c */\x7d</a> // d".toList (.script true) := by
  have once : (CStyle.scan (.script true) .empty "<a>\x7b/* c */\x7d</a> // d".toList).1 =
      "<a></a>     ".toList := by decide +kernel
  exact CStyle.sameOpeningsEverywhere once (by decide +kernel)

example : ContextStays .empty "\x7b# a #\x7d<!-- b --><script>c /* d */</script>".toList
    (.markup .jinja) := by
  refine .inr ⟨Markup.sameBlocksEverywhere ?_, Alternation.sameFindsEverywhere ?_⟩
  · decide +kernel
  · decide +kernel

/- A slash behind a comment divides; behind the blanks that are left of it, and an operator, it
opens a regular expression. -/
theorem slashBehindBlanks :
    ((withoutPhp .empty).strip (.script false) "=/**//\"///\"".toList).text =
        "=    /\"///\"".toList ∧
      ((withoutPhp .empty).strip (.script false)
        ((withoutPhp .empty).strip (.script false) "=/**//\"///\"".toList).text).text =
          "=    /\"/   ".toList ∧
      ((withoutPhp .empty).strip (.script false)
        ((withoutPhp .empty).strip (.script false) "=/**//\"///\"".toList).text).text ≠
          ((withoutPhp .empty).strip (.script false) "=/**//\"///\"".toList).text := by
  have once : ((withoutPhp .empty).strip (.script false) "=/**//\"///\"".toList).text =
      "=    /\"///\"".toList := by decide +kernel
  have twice : ((withoutPhp .empty).strip (.script false) "=    /\"///\"".toList).text =
      "=    /\"/   ".toList := by decide +kernel
  rw [once, twice]
  exact ⟨rfl, rfl, by decide⟩

end CommentStrip.Engine
