import CommentStrip.CStyle.Classify
import CommentStrip.Markup.Branch
import CommentStrip.Php.Delegate

/-! The template scanner. Markup is copied, the bodies of blocks are scanned by the rules of
their own language, and comments are blanked. -/
namespace CommentStrip

inductive MarkupVariant where
  | html
  | blade
  | jinja
  deriving DecidableEq, Repr

namespace Markup
open Unicode Text

def alternation (variant : MarkupVariant) : Alternation Region :=
  let branches : List (List Char → Option Region) := match variant with
    | .blade => [block .script, block .style, block .verbatim, block .php, comment .blade,
        comment .html]
    | .html | .jinja => [block .script, block .style, comment .html]
  ⟨branches, Region.width⟩

def pieces (variant : MarkupVariant) (text : List Char) : List (Piece Region) :=
  (alternation variant).search accepts text

structure Scanned where
  text : List Char
  tally : Tally
  requests : List (List Char)
  deriving DecidableEq, Repr

namespace Scanned

def copy (text : List Char) : Scanned := ⟨text, .zero, []⟩

def append (a b : Scanned) : Scanned :=
  ⟨a.text ++ b.text, a.tally.merge b.tally, a.requests ++ b.requests⟩

def join (parts : List Scanned) : Scanned := parts.foldr append (copy [])

def ofPair (result : List Char × Tally) : Scanned := ⟨result.1, result.2, []⟩

end Scanned

def openTagText : List Char := "<?php ".toList

/- The body goes to the delegate behind an open tag. An answer without the tag is no answer;
then, and when there is none, the C-style scanner speaks. It counts in any case. -/
def scanPhp (keep : KeepSet) (delegate : Php.Delegate) (body : List Char) : Scanned :=
  let (fallback, tally) := CStyle.scan .php keep body
  let request := openTagText ++ body
  let text := match delegate request keep.sources with
    | .ok reply => (after openTagText reply).getD fallback
    | .error _ => fallback
  ⟨text, tally, [request]⟩

def scanBody (keep : KeepSet) (delegate : Php.Delegate) : BlockKind → List Char → Scanned
  | .script, body => .ofPair (CStyle.scan (.script false) keep body)
  | .style, body => .ofPair (CStyle.scan (.stylesheet false) keep body)
  | .verbatim, body => .copy body
  | .php, body => scanPhp keep delegate body

def scanComment (keep : KeepSet) (raw : List Char) : Scanned :=
  let kept := keep.holds raw
  ⟨if kept then raw else blank raw, Tally.zero.record kept, []⟩

def scanPiece (keep : KeepSet) (delegate : Php.Delegate) : Piece Region → Scanned
  | .gap text => .copy text
  | .hit (.comment _ _) text => scanComment keep text
  | .hit (.block kind opening body _) text =>
    (Scanned.copy (text.take opening)).append
      ((scanBody keep delegate kind ((text.drop opening).take body)).append
        (.copy (text.drop (opening + body))))

def jinjaAlternation : Alternation Nat := ⟨[enclosed ['{', '#'] ['#', '}']], id⟩

def jinjaPass (keep : KeepSet) (text : List Char) : Scanned :=
  .join ((jinjaAlternation.search (fun _ _ _ => true) text).map fun piece =>
    match piece with
    | .gap text => .copy text
    | .hit _ text => scanComment keep text)

def scan (variant : MarkupVariant) (keep : KeepSet) (delegate : Php.Delegate) (text : List Char) :
    Scanned :=
  let first := Scanned.join ((pieces variant text).map (scanPiece keep delegate))
  match variant with
  | .jinja =>
    let second := jinjaPass keep first.text
    ⟨second.text, first.tally.merge second.tally, first.requests⟩
  | _ => first

structure Block where
  kind : BlockKind
  start : Nat
  bodyStart : Nat
  bodyStop : Nat
  stop : Nat
  body : List Char
  deriving DecidableEq, Repr

def blocksFrom (position : Nat) : List (Piece Region) → List Block
  | [] => []
  | .hit (.block kind opening body _) text :: rest =>
    let bodyStart := position + byteLength (text.take opening)
    let inner := (text.drop opening).take body
    let stop := position + byteLength text
    ⟨kind, position, bodyStart, bodyStart + byteLength inner, stop, inner⟩ :: blocksFrom stop rest
  | piece :: rest => blocksFrom (position + byteLength piece.text) rest

def blocks (variant : MarkupVariant) (text : List Char) : List Block :=
  blocksFrom 0 (pieces variant text)

end Markup
end CommentStrip
