import CommentStrip.Pattern.Compile

/-! Keep directives: a comment in which one of them occurs stays in the text as it is. -/
namespace CommentStrip

structure Directive where
  source : String
  holds : Pattern.Matcher

structure KeepSet where
  directives : List Directive

namespace KeepSet

def empty : KeepSet := ⟨[]⟩

def compile [Pattern.Dialect] (sources : List String) : Except Pattern.BadPatterns KeepSet :=
  (Pattern.compile "keep-directive" sources).map fun patterns =>
    ⟨(sources.zip patterns).map fun (source, holds) => ⟨source, holds⟩⟩

def holds (keep : KeepSet) (comment : List Char) : Bool :=
  keep.directives.any fun d => d.holds comment

def sources (keep : KeepSet) : List String := keep.directives.map Directive.source

end KeepSet
end CommentStrip
