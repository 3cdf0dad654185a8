import CommentStrip.Alternation
import CommentStrip.CStyle.Branch
import CommentStrip.CStyle.Context
import CommentStrip.Keep
import CommentStrip.Tally

/-! The C-style scanner: the text is cut into code, literals and comments, and the comments that
nothing keeps are blanked. -/
namespace CommentStrip.CStyle
open Unicode Text

structure Options where
  jsx : Bool
  lineComments : Bool
  hashComments : Bool
  regexLiterals : Bool
  deriving DecidableEq, Repr

namespace Options

def script (jsx : Bool) : Options := ⟨jsx, true, false, true⟩

def stylesheet (lineComments : Bool) : Options := ⟨false, lineComments, false, false⟩

def php : Options := ⟨false, true, true, true⟩

def branches (o : Options) : List Branch :=
  (if o.jsx then [.jsxComment] else []) ++
    [.singleQuoted, .doubleQuoted, .templateLiteral, .cssUrl] ++
    (if o.regexLiterals then [.regexLiteral] else []) ++
    [.blockComment] ++
    (if o.lineComments then [.lineComment] else []) ++
    (if o.hashComments then [.hashComment] else [])

end Options

structure Find where
  branch : Branch
  width : Nat
  deriving DecidableEq, Repr

def find (branch : Branch) (text : List Char) : Option Find :=
  (branch.extent text).map fun width => ⟨branch, width⟩

def alternation (o : Options) : Alternation Find := ⟨o.branches.map find, Find.width⟩

/- A hash followed by a bracket opens an attribute. -/
def accepts (before : List Char) (found : Find) (here : List Char) : Bool :=
  match found.branch with
  | .regexLiteral => expectsValue before
  | .jsxComment => acceptsChild before
  | .hashComment => !startsWith ['#', '['] here
  | _ => true

def pieces (o : Options) (text : List Char) : List (Piece Find) :=
  (alternation o).search accepts text

inductive Kind where
  | code
  | literal
  | comment
  deriving DecidableEq, Repr

def Kind.name : Kind → String
  | .code => "code"
  | .literal => "string"
  | .comment => "comment"

structure Classified where
  text : List Char
  kind : Kind
  branch : Option Branch
  deriving DecidableEq, Repr

def jsxInner (raw : List Char) : List Char :=
  let body := if raw.head? = some '{' then raw.tail else raw
  trim (if body.getLast? = some '}' then body.dropLast else body)

def candidate (branch : Branch) (raw : List Char) : List Char :=
  if branch = .jsxComment then jsxInner raw else raw

def kindOf (keep : KeepSet) (branch : Branch) (raw : List Char) : Kind :=
  if branch.isComment then
    if keep.holds (candidate branch raw) then .code else .comment
  else .literal

def classified (keep : KeepSet) : Piece Find → Classified
  | .gap text => ⟨text, .code, none⟩
  | .hit found text => ⟨text, kindOf keep found.branch text, some found.branch⟩

/- A comment that is kept is code, and has a branch. -/
def classify (o : Options) (keep : KeepSet) (text : List Char) : List Classified :=
  (pieces o text).map (classified keep)

def decision? (c : Classified) : Option Bool :=
  match c.branch with
  | some branch => if branch.isComment then some (c.kind = .code) else none
  | none => none

def tally (spans : List Classified) : Tally := .ofDecisions (spans.filterMap decision?)

/- Brace expressions vanish up to their line breaks; other comments leave spaces. -/
def cleaned (c : Classified) : List Char :=
  match c.kind, c.branch with
  | .comment, some .jsxComment => collapse c.text
  | .comment, _ => blank c.text
  | _, _ => c.text

def clean (spans : List Classified) : List Char := spans.flatMap cleaned

def scan (o : Options) (keep : KeepSet) (text : List Char) : List Char × Tally :=
  let spans := classify o keep text
  (clean spans, tally spans)

def offsets (position : Nat) : List Classified → List (Nat × Nat × Classified)
  | [] => []
  | c :: rest =>
    let stop := position + byteLength c.text
    (position, stop, c) :: offsets stop rest

theorem classifyText (o : Options) (keep : KeepSet) (text : List Char) :
    ((classify o keep text).map Classified.text).flatten = text := by
  have h : (classify o keep text).map Classified.text = (pieces o text).map Piece.text := by
    simp only [classify, List.map_map]
    apply List.map_congr_left
    intro piece _
    cases piece <;> rfl
  rw [h]
  exact Alternation.searchText _ _ _

end CommentStrip.CStyle
