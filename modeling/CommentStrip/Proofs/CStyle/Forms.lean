import CommentStrip.CStyle.Branch
import CommentStrip.Proofs.Expression

/-! The regular expression of every branch, as the documentation of the scanner gives it. -/
namespace CommentStrip.CStyle
open Unicode Text Expression

namespace Form

def anything : Expression := .one fun _ => true

def but (chars : List Char) : Expression := .one fun c => !chars.contains c

def space : Expression := .star true (.one isWhite)

def escaped (set : Expression) : Expression := .seq (char '\\') set

def quoted (quote : Char) : Expression :=
  .seq (char quote) (.seq (.star true (.alt (escaped anything) (but [quote, '\\']))) (char quote))

def cssUrl : Expression := word "url(".toList (.seq (plus true (but [')'])) (char ')'))

def bracketPart : Expression := .alt (escaped (but ['\n'])) (but [']', '\\', '\n'])

def brackets : Expression := .seq (char '[') (.seq (.star true bracketPart) (char ']'))

def regexPart (plain : List Char) : Expression :=
  .alt (escaped (but ['\n'])) (.alt brackets (but plain))

def regexFlags : Expression := .star true (.one isRegexFlag)

def regexLiteral : Expression :=
  .seq (char '/') (.seq (regexPart ['/', '\\', '\n', '[', '*'])
    (.seq (.star true (regexPart ['/', '\\', '\n', '['])) (.seq (char '/') regexFlags)))

def blockComment : Expression :=
  word ['/', '*'] (.seq (.star false anything) (word ['*'] (char '/')))

def toLineEnd : Expression := .star true (but ['\r', '\n'])

def starRun : Expression := .seq (plus true (char '*')) (but ['*', '/'])

def blockWithin : Expression :=
  word ['/', '*'] (.seq (.star true (.alt (but ['*']) starRun))
    (.seq (plus true (char '*')) (char '/')))

def lineWithin : Expression :=
  word ['/', '/'] (.seq (.star true (but ['\n'])) (char '\n'))

def innerComment : Expression := .alt blockWithin lineWithin

def jsxComment : Expression :=
  .seq (char '\x7b') (.seq space (.seq innerComment (.seq space (char '}'))))

end Form

def Branch.expression : Branch → Expression
  | .jsxComment => Form.jsxComment
  | .singleQuoted => Form.quoted '\''
  | .doubleQuoted => Form.quoted '"'
  | .templateLiteral => Form.quoted '\x60'
  | .cssUrl => Form.cssUrl
  | .regexLiteral => Form.regexLiteral
  | .blockComment => Form.blockComment
  | .lineComment => word ['/', '/'] Form.toLineEnd
  | .hashComment => .seq (char '#') Form.toLineEnd

namespace Form

theorem butEnds (chars : List Char) (c : Char) (rest : List Char) :
    (but chars).ends (c :: rest) = if c ∈ chars then [] else [1] := by
  by_cases member : c ∈ chars <;> simp [but, ends, member]

theorem escapedEnds (set : Expression) (c : Char) (rest : List Char) :
    (escaped set).ends (c :: rest) = if c = '\\' then (set.ends rest).map (1 + ·) else [] :=
  charSeqEnds '\\' c set rest

theorem charEnds (c d : Char) (rest : List Char) :
    (char c).ends (d :: rest) = if d = c then [1] else [] := by
  by_cases same : d = c <;> simp [char, ends, same]

theorem altEnds (left right : Expression) (text : List Char) :
    (alt left right).ends text = left.ends text ++ right.ends text := rfl

theorem anythingEnds (c : Char) (rest : List Char) : anything.ends (c :: rest) = [1] := rfl

theorem charHead (c : Char) (text : List Char) :
    (char c).ends text = if text.head? = some c then [1] else [] := by
  cases text with
  | nil => rfl
  | cons d rest => simp [charEnds]

theorem charSeqFilled (c : Char) (last : Expression) (text : List Char) :
    0 ∉ (seq (char c) last).ends text := by
  cases text with
  | nil => exact List.not_mem_nil
  | cons d rest =>
    rw [charSeqEnds]
    split
    · simp
    · exact List.not_mem_nil

theorem stuckExtent {e : Expression} {text : List Char} (stuck : e.ends text = []) :
    e.extent text = none := by rw [extent, stuck]; rfl

theorem toListLater (n : Nat) (found : Option Nat) :
    found.toList.map (n + ·) = (found.map (· + n)).toList := by
  cases found <;> simp [Nat.add_comm]

end Form
end CommentStrip.CStyle
