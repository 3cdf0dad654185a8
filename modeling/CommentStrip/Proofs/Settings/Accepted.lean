import CommentStrip.Settings.Validity

/-! Which settings are accepted, one check after the other. -/
namespace CommentStrip

namespace Pattern
variable [Dialect]

def Unusable (source : String) : Prop :=
  500 < source.utf8ByteSize ∨ ∃ report, Dialect.read (10 * 1024 * 1024) source = .error report

instance (source : String) : Decidable (Unusable source) :=
  decidable_of_iff
    (500 < source.utf8ByteSize ∨ (Dialect.read (10 * 1024 * 1024) source).isOk = false) (by
    unfold Unusable
    cases Dialect.read (10 * 1024 * 1024) source <;> simp [Except.isOk, Except.toBool])

theorem unusableIff (option source : String) :
    Unusable source ↔ ∃ rejection, compileOne option source = .error rejection := by
  unfold Unusable compileOne maxLength sizeLimit
  by_cases long : 500 < source.utf8ByteSize
  · simp [long]
  · cases Dialect.read (10 * 1024 * 1024) source <;> simp [long]

theorem compileUsable (option : String) (sources : List String) :
    (∃ patterns, compile option sources = .ok patterns) ↔
      ∀ source ∈ sources, ¬Unusable source := by
  rw [compileOkIff]
  refine forall₂_congr fun source _ => ?_
  rw [unusableIff option]
  cases compileOne option source <;> simp

end Pattern

namespace Settings
open Pattern (Unusable)

theorem noEmptyExcludes (number : Nat) (globs : List String) :
    emptyExcludes number globs = [] ↔ ∀ glob ∈ globs, isBlankText glob = false := by
  induction globs generalizing number with
  | nil => simp [emptyExcludes]
  | cons glob rest ih =>
    rw [emptyExcludes]
    cases blank : isBlankText glob <;> simp [blank, ih]

variable [Pattern.Dialect]

theorem noPatternProblems (option : String) (sources : List String) :
    patternProblems option sources = [] ↔ ∀ source ∈ sources, ¬Unusable source := by
  rw [← Pattern.compileUsable option, patternProblems]
  cases Pattern.compile option sources <;> simp

structure Accepted (s : Settings) : Prop where
  keep : ∀ source ∈ s.keep, ¬Unusable source
  excludeRegexes : ∀ source ∈ s.excludeRegexes, ¬Unusable source
  excludes : ∀ glob ∈ s.excludes, isBlankText glob = false
  timeout : s.php.timeout ≠ some 0
  binary : s.php.binary.any isBlankText = false

theorem acceptedIff (s : Settings) : s.isValid = true ↔ s.Accepted := by
  rw [isValid, List.isEmpty_iff, problems]
  simp only [List.append_eq_nil_iff, noPatternProblems, noEmptyExcludes]
  constructor
  · rintro ⟨⟨⟨⟨keep, regexes⟩, excludes⟩, timeout⟩, binary⟩
    exact ⟨keep, regexes, excludes, by simpa using timeout, by simpa using binary⟩
  · rintro ⟨keep, regexes, excludes, timeout, binary⟩
    exact ⟨⟨⟨⟨keep, regexes⟩, excludes⟩, if_neg timeout⟩, by simp [binary]⟩

end Settings
end CommentStrip
