import CommentStrip.Pattern.Occurrence
import CommentStrip.Pattern.Reader

/-! Languages of regular expressions. A run asks two things of one: whether a source is a pattern
in it, and whether a pattern occurs in a text. -/
namespace CommentStrip.Pattern

abbrev Matcher := List Char → Bool

/- A source may also be refused because its compiled form would take more than `limit` bytes. A
refusal comes with a report. -/
class Dialect where
  read (limit : Nat) (source : String) : Except String Matcher

/- The language that runs here. Its patterns are matched as they were read, so that there is no
compiled form and no limit to it. -/
instance spoken : Dialect where
  read _ source :=
    match Pattern.read source.toList with
    | .ok p => .ok (occurs p)
    | .error fault => .error (fault.report source.toList)

theorem spokenRead {limit : Nat} {source : String} {p : Pattern}
    (read : Pattern.read source.toList = .ok p) : spoken.read limit source = .ok (occurs p) := by
  show (match Pattern.read source.toList with
    | .ok p => Except.ok (occurs p)
    | .error fault => .error (fault.report source.toList)) = _
  rw [read]

theorem readSpoken {limit : Nat} {source : String} {holds : Matcher}
    (read : spoken.read limit source = .ok holds) :
    ∃ p, Pattern.read source.toList = .ok p ∧ holds = occurs p := by
  change (match Pattern.read source.toList with
    | .ok p => Except.ok (occurs p)
    | .error fault => .error (fault.report source.toList)) = _ at read
  split at read
  · rename_i p known
    cases read
    exact ⟨p, known, rfl⟩
  · cases read

end CommentStrip.Pattern
