import CommentStrip.Proofs.Python.TidyTokens
import CommentStrip.Proofs.Run.Filtered

/-! What the built-in settings leave of the string literals of a Python text. -/
namespace CommentStrip.Run
open Text Whitespace

/- A text that is Python is left as Python. White space is tidied in its literals as everywhere
else, so that those that are groomed stay as they are. -/
theorem stripTextTidied (find : List Char → Php.Interpreter) {text : List Char}
    {tokens : List Python.Token} (accepted : Python.tokenize text = .ok tokens) :
    ∃ outcome left, stripText find .builtIn .python text = .ok outcome ∧
      Python.tokenize outcome.text = .ok left ∧
      Python.literals left =
        (Python.literals tokens).map (tidied (some 2) (lineEnding outcome.text)) ∧
      (Python.literals left = Python.literals tokens ↔
        ∀ literal ∈ Python.literals tokens,
          Groomed (some 2) (lineEnding outcome.text) literal) := by
  obtain ⟨keep, compiled⟩ := keepCompiles builtInAccepted
  obtain ⟨outcome, stripped, same⟩ := stripTextMade (engineMade find compiled) .python text
  obtain ⟨remaining, tally, taken⟩ : ∃ remaining tally,
      Python.strip keep text = .ok (remaining, tally) := by
    rw [Python.strip, accepted]
    exact ⟨_, _, rfl⟩
  obtain ⟨left, again, literal⟩ := Python.stripTidied accepted taken (some 2)
  have whole : outcome.text = normalize (some 2) remaining := by
    rw [same, Engine.strip, Engine.stripPython, taken]
    rfl
  have ending : lineEnding outcome.text = lineEnding remaining := by
    rw [whole, normalizeWritten]
    exact endingWritten (rowsNeat (some 2) remaining) _
  rw [← whole] at again
  rw [← ending] at literal
  refine ⟨outcome, left, stripped, again, literal, ?_⟩
  rw [literal]
  exact Python.literalsGroomed accepted (some 2) _

theorem stripTextTidiedComment :
    let text := "s = r'''a\n\n b''' # c\nt = 'd'".toList
    (Python.tokenize text).map Python.literals = .ok ["r'''a\n\n b'''".toList, "'d'".toList] ∧
      ∃ outcome left, stripText (fun _ => .missing) .builtIn .python text = .ok outcome ∧
        outcome.text = "s = r'''a\n\n b'''\nt = 'd'\n".toList ∧
        Python.tokenize outcome.text = .ok left ∧
        Python.literals left = ["r'''a\n\n b'''".toList, "'d'".toList] := by
  intro text
  have cut : (Python.tokenize text).map Python.literals =
      .ok ["r'''a\n\n b'''".toList, "'d'".toList] := by with_unfolding_all rfl
  have output : (stripText (fun _ => .missing) .builtIn .python text).toOption.map Outcome.text =
      some "s = r'''a\n\n b'''\nt = 'd'\n".toList := by decide +kernel
  cases accepted : Python.tokenize text with
  | error e =>
    rw [accepted] at cut
    cases cut
  | ok tokens =>
    rw [accepted] at cut
    obtain ⟨outcome, left, stripped, again, literal, -⟩ :=
      stripTextTidied (fun _ => .missing) accepted
    rw [stripped] at output
    have same : outcome.text = _ := Option.some.inj output
    refine ⟨cut, outcome, left, stripped, same, again, ?_⟩
    rw [literal, Except.ok.inj cut, same]
    decide +kernel

/- White space at the end of a row is taken off, though the row ends inside a literal. -/
theorem stripTextTrimsLiteral :
    ∃ tokens outcome left, Python.tokenize "'''a \nb'''\n".toList = .ok tokens ∧
      stripText (fun _ => .missing) .builtIn .python "'''a \nb'''\n".toList = .ok outcome ∧
      Python.tokenize outcome.text = .ok left ∧
      Python.literals left ≠ Python.literals tokens := by
  refine ⟨[⟨.string, "'''a \nb'''".toList⟩, ⟨.newline, ['\n']⟩],
    ⟨"'''a\nb'''\n".toList, ⟨0, 0⟩, false, []⟩,
    [⟨.string, "'''a\nb'''".toList⟩, ⟨.newline, ['\n']⟩], ?_, ?_, ?_, by decide⟩
  · with_unfolding_all rfl
  · with_unfolding_all rfl
  · with_unfolding_all rfl

end CommentStrip.Run
