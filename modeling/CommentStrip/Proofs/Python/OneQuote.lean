import CommentStrip.Proofs.Python.LineAgain
import CommentStrip.Proofs.Python.Parts
import CommentStrip.Proofs.Text.Utf8
import Mathlib.Data.List.Forall2

/-! The quotes that are open behind the lines of a text. A line takes over nothing but the triple
quote that is open in front of it, and behind it no two kinds of quote are open. -/
namespace CommentStrip.Python
open Text

namespace QuoteState

def feedLines (st : QuoteState) : List (List Char) → List (Option Nat × QuoteState)
  | [] => []
  | line :: rest => st.feedLine line :: (st.feedLine line).2.feedLines rest

def AtMostOne (st : QuoteState) : Prop :=
  [st.single, st.double, st.triple.isSome].count true ≤ 1

theorem feedKeeps {motive : QuoteState → Prop}
    (passes : ∀ st c, motive st → motive (st.pass c))
    (turns : ∀ st text later, st.turn? text = some later → motive st → motive later)
    {st : QuoteState} (start : motive st) (text : List Char) : motive (st.feedFrom text).2 := by
  fun_induction feedFrom st text with
  | case1 st => exact start
  | case2 st c rest later turned result ih => exact ih (turns st _ later turned start)
  | case3 st c rest still hash => exact start
  | case4 st c rest still noHash result ih => exact ih (passes st c start)

section
variable {st : QuoteState}

theorem AtMostOne.fewer (one : st.AtMostOne) {later : QuoteState}
    (single : later.single = true → st.single = true)
    (double : later.double = true → st.double = true)
    (triple : later.triple.isSome = true → st.triple.isSome = true) : later.AtMostOne := by
  have flags : ∀ a b c d e f : Bool, (d = true → a = true) → (e = true → b = true) →
      (f = true → c = true) → [a, b, c].count true ≤ 1 → [d, e, f].count true ≤ 1 := by decide
  exact flags _ _ _ _ _ _ single double triple one

theorem closedFlags (closed : st.isOpen = false) :
    st.single = false ∧ st.double = false ∧ st.triple = none := by
  simpa [isOpen, and_assoc] using closed

theorem passAtMostOne (st : QuoteState) (c : Char) (one : st.AtMostOne) :
    (st.pass c).AtMostOne := by
  rcases st.passCases c with ⟨waits, same, -⟩ | ⟨-, (same | same) | ⟨closed, same | same⟩⟩
  · rw [same]
    exact one
  · rw [same]
    exact one.fewer nofun id id
  · rw [same]
    exact one.fewer id nofun id
  all_goals
    obtain ⟨single, double, triple⟩ := closedFlags closed
    rw [same]
    simp [AtMostOne, single, double, triple]

theorem turnAtMostOne (st : QuoteState) (text : List Char) (later : QuoteState)
    (turned : st.turn? text = some later) (one : st.AtMostOne) : later.AtMostOne := by
  rcases turnCases turned with ⟨-, ⟨q, -, -, rfl⟩ | ⟨closed, q, -, rfl⟩⟩
  · exact one.fewer id id nofun
  · obtain ⟨single, double, -⟩ := closedFlags closed
    simp [AtMostOne, single, double]

theorem feedHash {later : QuoteState} {text : List Char} {n : Nat}
    (fed : st.feedFrom text = (some n, later)) : (text.drop n).head? = some '#' := by
  fun_induction feedFrom st text generalizing n with
  | case1 st => cases fed
  | case2 st c rest opened turned result =>
    rename_i ih
    rw [Prod.mk.injEq, Option.map_eq_some_iff] at fed
    obtain ⟨⟨m, found, rfl⟩, later⟩ := fed
    have behind := ih (Prod.ext found later)
    rw [List.drop_drop] at behind
    rwa [List.drop_succ_cons, Nat.add_comm m 2]
  | case3 st c rest still hash =>
    cases fed
    rw [hash.1]
    rfl
  | case4 st c rest still noHash result =>
    rename_i ih
    rw [Prod.mk.injEq, Option.map_eq_some_iff] at fed
    obtain ⟨⟨m, found, rfl⟩, later⟩ := fed
    exact ih (Prod.ext found later)

end

end QuoteState

/- What is true behind a line: no two kinds of quote are open, a backslash waits only inside
quotes, and the comment of the line, if it has one, begins outside of them with its hash. -/
structure LineFed (line : List Char) (hash : Option Nat) (later : QuoteState) : Prop where
  single : later.AtMostOne
  waits : later.escaped = true → later.isOpen = true
  comment : ∀ n, hash = some n →
    (Utf8.encode line)[byteLength (line.take n)]? = some '#'.toUInt8 ∧ later.isOpen = false

theorem encodeAt {line : List Char} {n : Nat} (hash : (line.drop n).head? = some '#') :
    (Utf8.encode line)[byteLength (line.take n)]? = some '#'.toUInt8 := by
  obtain ⟨behind, rest⟩ := List.head?_eq_some_iff.mp hash
  have split : Utf8.encode line = Utf8.encode (line.take n) ++ Utf8.encode ('#' :: behind) := by
    rw [← rest, Utf8.encode, Utf8.encode, Utf8.encode, ← List.flatMap_append,
      List.take_append_drop]
  rw [split, ← Utf8.encodeLength, List.getElem?_append_right (Nat.le_refl _), Nat.sub_self]
  rfl

theorem lineFed (st : QuoteState) (line : List Char) :
    LineFed line (st.feedLine line).1 (st.feedLine line).2 where
  single := by
    have start : st.atLineStart.AtMostOne := by
      cases triple : st.triple <;> simp [QuoteState.AtMostOne, QuoteState.atLineStart, triple]
    exact QuoteState.feedKeeps QuoteState.passAtMostOne QuoteState.turnAtMostOne start line
  waits :=
    QuoteState.feedKeeps (fun st c _ => st.passSound c)
      (fun _ _ _ turned _ => QuoteState.turnSound turned) st.lineStartSound line
  comment n hash := by
    have fed : st.atLineStart.feedFrom line = (some n, (st.feedLine line).2) := Prod.ext hash rfl
    exact ⟨encodeAt (QuoteState.feedHash fed), (QuoteState.feedTaken fed).2.1⟩

theorem feedLineTriple {st other : QuoteState} (same : other.triple = st.triple)
    (line : List Char) : other.feedLine line = st.feedLine line := by
  simp only [QuoteState.feedLine, QuoteState.atLineStart, same]

theorem feedLinesTriple {st other : QuoteState} (same : other.triple = st.triple)
    (lines : List (List Char)) : other.feedLines lines = st.feedLines lines := by
  cases lines with
  | nil => rfl
  | cons line rest => simp only [QuoteState.feedLines, feedLineTriple same]

/- From whatever state the lines are fed, behind each of them at most one kind of quote is open,
and of the state in front only the triple quote matters. -/
theorem oneQuoteOpen (st : QuoteState) (lines : List (List Char)) :
    List.Forall₂ (fun line fed => LineFed line fed.1 fed.2) lines (st.feedLines lines) ∧
      ∀ other : QuoteState, other.triple = st.triple →
        other.feedLines lines = st.feedLines lines := by
  refine ⟨?_, fun other same => feedLinesTriple same lines⟩
  induction lines generalizing st with
  | nil => exact .nil
  | cons line rest ih => exact .cons (lineFed st line) (ih _)

theorem oneQuoteOpenStray :
    QuoteState.feedLines ⟨true, true, some .double, true⟩
        ["é\"\"\" '#' # b".toList, ['"', '\\']] =
        [(some 9, .initial), (none, ⟨false, true, none, true⟩)] ∧
      LineFed "é\"\"\" '#' # b".toList (some 9) .initial ∧
      LineFed ['"', '\\'] none ⟨false, true, none, true⟩ ∧
      QuoteState.feedLines ⟨false, false, some .double, false⟩
        ["é\"\"\" '#' # b".toList, ['"', '\\']] =
        [(some 9, .initial), (none, ⟨false, true, none, true⟩)] := by
  have fed : QuoteState.feedLines ⟨true, true, some .double, true⟩
      ["é\"\"\" '#' # b".toList, ['"', '\\']] =
      [(some 9, .initial), (none, ⟨false, true, none, true⟩)] := by with_unfolding_all rfl
  obtain ⟨each, same⟩ := oneQuoteOpen ⟨true, true, some .double, true⟩
    ["é\"\"\" '#' # b".toList, ['"', '\\']]
  rw [fed, List.forall₂_cons, List.forall₂_cons] at each
  exact ⟨fed, each.1, each.2.1, (same ⟨false, false, some .double, false⟩ rfl).trans fed⟩

end CommentStrip.Python
