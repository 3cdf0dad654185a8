import CommentStrip.Grammar
import CommentStrip.Python.LineScan
import CommentStrip.Python.Strip

/-! One engine for all families. Each family has a first way; Python and PHP have a second one
for texts and delegates that fail. -/
namespace CommentStrip

structure Outcome where
  text : List Char
  tally : Tally
  usedFallback : Bool
  requests : List (List Char)
  deriving DecidableEq, Repr

structure Engine where
  keep : KeepSet
  delegate : Php.Delegate

namespace Engine

def withoutPhp (keep : KeepSet) : Engine := ⟨keep, Php.noDelegate⟩

def stripPython (keep : KeepSet) (text : List Char) : Outcome :=
  match Python.strip keep text with
  | .ok (stripped, tally) => ⟨stripped, tally, false, []⟩
  | .error _ =>
    let (stripped, tally) := Python.lineScan keep text
    ⟨stripped, tally, true, []⟩

def stripCStyle (o : CStyle.Options) (keep : KeepSet) (text : List Char) : Outcome :=
  let (stripped, tally) := CStyle.scan o keep text
  ⟨stripped, tally, false, []⟩

/- The comments are counted by the C-style scanner, whoever removes them. -/
def stripPhp (e : Engine) (text : List Char) : Outcome :=
  let (fallback, tally) := CStyle.scan .php e.keep text
  match e.delegate text e.keep.sources with
  | .ok reply => ⟨reply, tally, false, [text]⟩
  | .error _ => ⟨fallback, tally, true, [text]⟩

def stripMarkup (e : Engine) (variant : MarkupVariant) (text : List Char) : Outcome :=
  let scanned := Markup.scan variant e.keep e.delegate text
  ⟨scanned.text, scanned.tally, false, scanned.requests⟩

def strip (e : Engine) (family : Family) (text : List Char) : Outcome :=
  match family with
  | .python => stripPython e.keep text
  | .script jsx => stripCStyle (.script jsx) e.keep text
  | .stylesheet lineComments => stripCStyle (.stylesheet lineComments) e.keep text
  | .php => e.stripPhp text
  | .markup variant => e.stripMarkup variant text

def analyze (e : Engine) (family : Family) (text : List Char) : Tally :=
  match family with
  | .php => CStyle.tally (CStyle.classify .php e.keep text)
  | _ => ((withoutPhp e.keep).strip family text).tally

end Engine
end CommentStrip
