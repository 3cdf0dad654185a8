import CommentStrip.Engine
import CommentStrip.Proofs.Markup.Parts
import CommentStrip.Proofs.Python.Parts

/-! Keep sets decide what happens to a comment, never what is a comment. Outside the templates with
a second pass, which reads what the first one left, the comments of a text are told without a keep
set, and two runs differ only in which of them stay. -/
namespace CommentStrip
open Text

namespace Family

def parts : Family → List Char → List Part
  | .python => Python.parts
  | .script jsx => CStyle.parts (.script jsx)
  | .stylesheet lineComments => CStyle.parts (.stylesheet lineComments)
  | .php => CStyle.parts .php
  | .markup variant => Markup.parts variant

def degrades : Family → List Char → Bool
  | .python, text => (Python.tokenize text).toOption.isNone
  | .php, _ => true
  | _, _ => false

end Family

namespace Engine

theorem pythonParted (keep : KeepSet) (text : List Char) :
    Parted keep (Python.parts text) text (stripPython keep text).text
        (stripPython keep text).tally ∧
      (stripPython keep text).usedFallback = (Python.tokenize text).toOption.isNone := by
  cases tokenized : Python.tokenize text with
  | ok tokens =>
    have accepted : Python.strip keep text = .ok (Python.stripTokens keep tokens) := by
      simp only [Python.strip, tokenized, Except.map]
    simp only [stripPython, accepted]
    exact ⟨Python.stripParted keep accepted, rfl⟩
  | error fault =>
    have rejected : Python.strip keep text = .error fault := by
      simp only [Python.strip, tokenized, Except.map]
    simp only [stripPython, rejected]
    exact ⟨Python.lineScanParted keep tokenized, rfl⟩

theorem stripParted {e : Engine} (fails : Php.Fails e.delegate) {family : Family}
    (single : family ≠ .markup .jinja) (text : List Char) :
    Parted e.keep (family.parts text) text (e.strip family text).text
        (e.strip family text).tally ∧
      (e.strip family text).usedFallback = family.degrades text := by
  cases family with
  | python => exact pythonParted e.keep text
  | script jsx => exact ⟨CStyle.scanParted (.script jsx) e.keep text, rfl⟩
  | stylesheet lineComments =>
    exact ⟨CStyle.scanParted (.stylesheet lineComments) e.keep text, rfl⟩
  | php =>
    obtain ⟨fault, failed⟩ := fails text e.keep.sources
    simp only [strip, stripPhp, failed]
    exact ⟨CStyle.scanParted .php e.keep text, rfl⟩
  | markup variant =>
    have others : variant ≠ .jinja := fun same => single (by rw [same])
    exact ⟨Markup.scanParted e.keep fails others text, rfl⟩

/- Two engines find the same comments and take the same way, whatever they keep. What one of them
keeps is kept by the other, if that keeps at least as much; and spans begin and end at the same
places under any rules. -/
theorem keepDecides {e wider : Engine} (fails : Php.Fails e.delegate)
    (failsToo : Php.Fails wider.delegate)
    (more : ∀ seen, e.keep.holds seen = true → wider.keep.holds seen = true) {family : Family}
    (single : family ≠ .markup .jinja) (text : List Char) :
    Parted e.keep (family.parts text) text (e.strip family text).text
        (e.strip family text).tally ∧
      Parted wider.keep (family.parts text) text (wider.strip family text).text
        (wider.strip family text).tally ∧
      Widened (family.parts text) e.keep wider.keep (e.strip family text).tally
        (wider.strip family text).tally (wider.strip family text).text ∧
      (e.strip family text).usedFallback = (wider.strip family text).usedFallback ∧
      ∀ o, (CStyle.offsets 0 (CStyle.classify o e.keep text)).map CStyle.unjudged =
        (CStyle.offsets 0 (CStyle.classify o wider.keep text)).map CStyle.unjudged := by
  obtain ⟨parted, fallback⟩ := stripParted fails single text
  obtain ⟨partedToo, fallbackToo⟩ := stripParted failsToo single text
  exact ⟨parted, partedToo, parted.widened more partedToo, fallback.trans fallbackToo.symm,
    fun o => CStyle.sameSpans o e.keep wider.keep text⟩

theorem keepDecidesPython :
    Php.Fails (withoutPhp (.signs ['!'])).delegate ∧
      Php.Fails (withoutPhp (.signs ['!', 'b'])).delegate ∧
      (∀ seen, (KeepSet.signs ['!']).holds seen = true →
        (KeepSet.signs ['!', 'b']).holds seen = true) ∧
      Family.python ≠ .markup .jinja ∧
      ((withoutPhp (.signs ['!'])).strip .python "f(1) # a!\n# b\n# c".toList).tally = ⟨2, 1⟩ ∧
      ((withoutPhp (.signs ['!', 'b'])).strip .python "f(1) # a!\n# b\n# c".toList).text =
        "f(1) # a!\n# b\n".toList ∧
      Widened (Family.python.parts "f(1) # a!\n# b\n# c".toList) (.signs ['!']) (.signs ['!', 'b'])
        ((withoutPhp (.signs ['!'])).strip .python "f(1) # a!\n# b\n# c".toList).tally
        ((withoutPhp (.signs ['!', 'b'])).strip .python "f(1) # a!\n# b\n# c".toList).tally
        ((withoutPhp (.signs ['!', 'b'])).strip .python "f(1) # a!\n# b\n# c".toList).text := by
  have more : ∀ seen, (KeepSet.signs ['!']).holds seen = true →
      (KeepSet.signs ['!', 'b']).holds seen = true := fun seen =>
    KeepSet.holdsMore (by simp [KeepSet.signs])
  have single : Family.python ≠ .markup .jinja := by simp
  obtain ⟨-, -, widened, -⟩ := @keepDecides (withoutPhp (.signs ['!']))
    (withoutPhp (.signs ['!', 'b'])) Php.noDelegateFails Php.noDelegateFails more .python single
    "f(1) # a!\n# b\n# c".toList
  exact ⟨Php.noDelegateFails, Php.noDelegateFails, more, single, by decide +kernel,
    by decide +kernel, widened⟩

end Engine
end CommentStrip
