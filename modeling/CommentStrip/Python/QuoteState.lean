import CommentStrip.Text.Basic

/-! The quotes that are open at a place of a line. Only a triple quote lasts beyond its line. -/
namespace CommentStrip.Python
open Text

inductive TripleQuote where
  | single
  | double
  deriving DecidableEq, Repr

def TripleQuote.mark : TripleQuote → Char
  | .single => '\''
  | .double => '"'

def TripleQuote.delimiter (q : TripleQuote) : List Char := [q.mark, q.mark, q.mark]

structure QuoteState where
  single : Bool
  double : Bool
  triple : Option TripleQuote
  escaped : Bool
  deriving DecidableEq, Repr

namespace QuoteState

def initial : QuoteState := ⟨false, false, none, false⟩

def atLineStart (st : QuoteState) : QuoteState := ⟨false, false, st.triple, false⟩

def isOpen (st : QuoteState) : Bool := st.single || st.double || st.triple.isSome

def pass (st : QuoteState) (c : Char) : QuoteState :=
  if st.escaped then { st with escaped := false }
  else if st.triple.isSome then
    if c = '\\' then { st with escaped := true } else st
  else if st.single || st.double then
    if c = '\\' then { st with escaped := true }
    else if c = '\'' ∧ st.single = true then { st with single := false }
    else if c = '"' ∧ st.double = true then { st with double := false }
    else st
  else if c = '\'' then { st with single := true }
  else if c = '"' then { st with double := true }
  else st

/- The triple quote that opens or closes where the text begins, as the state behind it. -/
def turn? (st : QuoteState) (text : List Char) : Option QuoteState :=
  match st.triple with
  | some q =>
    if !st.escaped && startsWith q.delimiter text then some { st with triple := none } else none
  | none =>
    if st.escaped || st.single || st.double then none
    else if startsWith TripleQuote.double.delimiter text then
      some { st with triple := some .double }
    else if startsWith TripleQuote.single.delimiter text then
      some { st with triple := some .single }
    else none

/- The number of characters in front of the first hash outside all quotes, if there is one,
and the state there or at the end of the line. -/
def feedFrom (st : QuoteState) : List Char → Option Nat × QuoteState
  | [] => (none, st)
  | c :: rest =>
    match st.turn? (c :: rest) with
    | some later =>
      let result := later.feedFrom (rest.drop 2)
      (result.1.map (· + 3), result.2)
    | none =>
      if c = '#' ∧ st.isOpen = false ∧ st.escaped = false then (some 0, st)
      else
        let result := (st.pass c).feedFrom rest
        (result.1.map (· + 1), result.2)
termination_by text => text.length
decreasing_by all_goals (simp only [List.length_cons, List.length_drop]; omega)

def feedLine (st : QuoteState) (line : List Char) : Option Nat × QuoteState :=
  st.atLineStart.feedFrom line

end QuoteState
end CommentStrip.Python
