import CommentStrip.Pattern.Dialect

/-! Lists of patterns are taken as a whole: all of them can be used, or the report names every
one that cannot. -/
namespace CommentStrip.Pattern

/- In bytes of the source. -/
def maxLength : Nat := 500

/- In bytes of the compiled form. -/
def sizeLimit : Nat := 10 * 1024 * 1024

inductive Rejection where
  | tooLong (source : String)
  | unreadable (option source report : String)
  deriving DecidableEq, Repr

def Rejection.message : Rejection → String
  | .tooLong source =>
    "Pattern '" ++ source ++ "': length (" ++ toString source.utf8ByteSize ++
      ") exceeds maximum allowed (" ++ toString maxLength ++ ")"
  | .unreadable option source report =>
    "Failed to compile " ++ option ++ " '" ++ source ++ "' pattern: " ++ report

structure BadPatterns where
  option : String
  rejections : List Rejection
  deriving DecidableEq, Repr

def BadPatterns.message (bad : BadPatterns) : String :=
  "A fatal error occurred: Invalid " ++ bad.option ++ " pattern(s) (" ++
    toString bad.rejections.length ++ "):\n" ++
    String.intercalate "\n" (bad.rejections.map Rejection.message)

section
variable [Dialect]

def compileOne (option source : String) : Except Rejection Matcher :=
  if source.utf8ByteSize > maxLength then .error (.tooLong source)
  else match Dialect.read sizeLimit source with
    | .ok holds => .ok holds
    | .error report => .error (.unreadable option source report)

def rejection? (option source : String) : Option Rejection :=
  match compileOne option source with
  | .ok _ => none
  | .error r => some r

def usable? (option source : String) : Option Matcher := (compileOne option source).toOption

def compile (option : String) (sources : List String) : Except BadPatterns (List Matcher) :=
  match sources.filterMap (rejection? option) with
  | [] => .ok (sources.filterMap (usable? option))
  | rejections => .error ⟨option, rejections⟩

theorem compileOkIff (option : String) (sources : List String) :
    (∃ patterns, compile option sources = .ok patterns) ↔
      ∀ source ∈ sources, ∃ p, compileOne option source = .ok p := by
  have blank : sources.filterMap (rejection? option) = [] ↔
      ∀ source ∈ sources, ∃ p, compileOne option source = .ok p := by
    rw [List.filterMap_eq_nil_iff]
    constructor <;> intro h source member <;> have at_source := h source member
    · unfold rejection? at at_source
      split at at_source
      · rename_i p ok
        exact ⟨p, ok⟩
      · contradiction
    · obtain ⟨p, ok⟩ := at_source
      simp [rejection?, ok]
  rw [← blank]
  unfold compile
  split
  · rename_i h
    simp [h]
  · rename_i some_rejected
    constructor
    · rintro ⟨_, impossible⟩
      contradiction
    · intro h
      exact absurd h some_rejected

end

end CommentStrip.Pattern
