import CommentStrip.Whitespace

/-! What a run can be told. Settings come in layers; a later layer adds to the lists of an
earlier one and overrides what else it sets. -/
namespace CommentStrip

structure WhitespaceSettings where
  normalize : Option Bool
  /-- One less than the blank lines allowed in a row; negative for no limit. -/
  collapse : Option Int
  deriving DecidableEq, Repr

structure PhpSettings where
  enabled : Option Bool
  binary : Option String
  timeout : Option Nat
  deriving DecidableEq, Repr

structure Settings where
  keep : List String
  excludes : List String
  excludeRegexes : List String
  whitespace : WhitespaceSettings
  php : PhpSettings
  deriving DecidableEq, Repr

namespace Settings

def empty : Settings := ⟨[], [], [], ⟨none, none⟩, ⟨none, none, none⟩⟩

def builtInExcludes : List String :=
  [".git/**", "node_modules/**", "vendor/**", "dist/**", "build/**", "public/build/**",
    "coverage/**", ".next/**", ".nuxt/**", ".cache/**", "storage/**", "bootstrap/cache/**",
    "resources/js/actions/**", "venv/**", ".venv/**", "*.min.js", "**/*.min.js", "*.min.css",
    "**/*.min.css", ".idea/**", ".vscode/**"]

def builtIn : Settings :=
  ⟨[], builtInExcludes, [], ⟨some true, some 2⟩, ⟨some true, some "php", some 10000⟩⟩

def normalizes (s : Settings) : Bool := s.whitespace.normalize.getD true

def collapseLimit (s : Settings) : Option Nat :=
  match s.whitespace.collapse.getD 2 with
  | .ofNat limit => some limit
  | .negSucc _ => none

def phpEnabled (s : Settings) : Bool := s.php.enabled.getD true

def phpBinary (s : Settings) : String := s.php.binary.getD "php"

/- In milliseconds. -/
def phpTimeout (s : Settings) : Nat := s.php.timeout.getD 10000

def policy (s : Settings) : Whitespace.Policy := ⟨s.normalizes, s.collapseLimit⟩

def appendNew : List String → List String → List String
  | into, [] => into
  | into, item :: rest => appendNew (if item ∈ into then into else into ++ [item]) rest

theorem memAppendNew {into items : List String} {x : String} :
    x ∈ appendNew into items ↔ x ∈ into ∨ x ∈ items := by
  induction items generalizing into with
  | nil => simp [appendNew]
  | cons item rest ih =>
    simp only [appendNew]
    rw [ih]
    split
    · rename_i there
      constructor
      · rintro (h | h) <;> simp [h]
      · intro h
        rcases h with h | h
        · exact .inl h
        · rcases List.mem_cons.mp h with rfl | h
          · exact .inl there
          · exact .inr h
    · simp [or_assoc]

def merge (below above : Settings) : Settings where
  keep := appendNew below.keep above.keep
  excludes := appendNew below.excludes above.excludes
  excludeRegexes := appendNew below.excludeRegexes above.excludeRegexes
  whitespace :=
    ⟨above.whitespace.normalize <|> below.whitespace.normalize,
      above.whitespace.collapse <|> below.whitespace.collapse⟩
  php :=
    ⟨above.php.enabled <|> below.php.enabled, above.php.binary <|> below.php.binary,
      above.php.timeout <|> below.php.timeout⟩

theorem mergeEmpty (s : Settings) : s.merge empty = s := rfl

end Settings
end CommentStrip
