import CommentStrip.Text.Basic

/-! A search by several branches in a fixed order. At every place the first branch that matches
speaks; the caller may veto what it found, and then the search goes on one character later. -/
namespace CommentStrip

structure Alternation (μ : Type) where
  branches : List (List Char → Option μ)
  width : μ → Nat

inductive Piece (μ : Type) where
  | gap (text : List Char)
  | hit (found : μ) (text : List Char)
  deriving DecidableEq, Repr

namespace Piece

def text {μ : Type} : Piece μ → List Char
  | .gap text => text
  | .hit _ text => text

end Piece

namespace Alternation
variable {μ : Type}

def matchAt (a : Alternation μ) (text : List Char) : Option μ :=
  a.branches.findSome? fun branch => branch text

/- A veto sees the text in front, latest character first, the find, and the text from the find
on. -/
abbrev Acceptance (μ : Type) := (before : List Char) → (found : μ) → (here : List Char) → Bool

def accepted? (a : Alternation μ) (accept : Acceptance μ) (before here : List Char) : Option μ :=
  (a.matchAt here).filter fun found => a.width found != 0 && accept before found here

/- The list `gap` holds the characters passed over since the last find, latest first. -/
def closeGap (gap : List Char) (later : List (Piece μ)) : List (Piece μ) :=
  if gap.isEmpty then later else .gap gap.reverse :: later

def searchFrom (a : Alternation μ) (accept : Acceptance μ) (before gap : List Char) :
    List Char → List (Piece μ)
  | [] => closeGap gap []
  | c :: rest =>
    match a.accepted? accept before (c :: rest) with
    | some found =>
      let more := a.width found - 1
      let taken := c :: rest.take more
      closeGap gap (.hit found taken ::
        searchFrom a accept (taken.reverse ++ before) [] (rest.drop more))
    | none => searchFrom a accept (c :: before) (c :: gap) rest
termination_by text => text.length
decreasing_by all_goals (simp only [List.length_cons, List.length_drop]; omega)

def search (a : Alternation μ) (accept : Acceptance μ) (text : List Char) : List (Piece μ) :=
  a.searchFrom accept [] [] text

theorem closeGapText (gap : List Char) (later : List (Piece μ)) :
    ((closeGap gap later).map Piece.text).flatten =
      gap.reverse ++ (later.map Piece.text).flatten := by
  unfold closeGap
  split
  · simp_all
  · simp [Piece.text]

theorem searchFromText (a : Alternation μ) (accept : Acceptance μ) (before gap text : List Char) :
    ((a.searchFrom accept before gap text).map Piece.text).flatten = gap.reverse ++ text := by
  fun_induction searchFrom a accept before gap text with
  | case1 before gap => simp [closeGapText]
  | case2 before gap c rest found _ more taken ih =>
    rw [closeGapText, List.map_cons, List.flatten_cons, ih]
    simp [Piece.text, taken]
  | case3 before gap c rest _ ih => simp [ih]

theorem searchText (a : Alternation μ) (accept : Acceptance μ) (text : List Char) :
    ((a.search accept text).map Piece.text).flatten = text := by
  simp [search, searchFromText]

end Alternation
end CommentStrip
