import CommentStrip.CStyle.Classify
import CommentStrip.Proofs.Search
import CommentStrip.Proofs.Tally
import Mathlib.Data.List.Chain

/-! The classified spans are a partition of the text: they lie end to end from its first byte to
its last one, and what a span is called follows from its branch. -/
namespace CommentStrip
open Text

namespace Alternation
variable {μ : Type} {a : Alternation μ} {accept : Acceptance μ}

def Neighbours (p q : Piece μ) : Prop :=
  (∃ found taken, p = .hit found taken) ∨ ∃ found taken, q = .hit found taken

theorem gapsApart {before gap here : List Char} :
    (a.searchFrom accept before gap here).IsChain Neighbours := by
  fun_induction searchFrom a accept before gap here with
  | case1 before gap =>
    unfold closeGap
    split <;> simp
  | case2 before gap c rest found spoke more taken ih =>
    have hit : (Piece.hit found taken :: a.searchFrom accept (taken.reverse ++ before) []
        (rest.drop more)).IsChain Neighbours := ih.cons fun _ _ => .inl ⟨found, taken, rfl⟩
    unfold closeGap
    split
    · exact hit
    · exact hit.cons fun _ first => .inr ⟨found, taken, (Option.some.inj first).symm⟩
  | case3 before gap c rest passed ih => exact ih

end Alternation

namespace CStyle

abbrev Placed := Nat × Nat × Classified

structure Partition (text : List Char) (spans : List Placed) : Prop where
  empty : spans = [] ↔ text = []
  filled : ∀ start stop c, (start, stop, c) ∈ spans → start < stop
  first : ∀ start stop c, spans.head? = some (start, stop, c) → start = 0
  joined : spans.IsChain fun s t => t.1 = s.2.1
  last : ∀ start stop c, spans.getLast? = some (start, stop, c) → stop = byteLength text
  cut : ∀ start stop c, (start, stop, c) ∈ spans → ∃ front back,
    text = front ++ c.text ++ back ∧ start = byteLength front ∧ stop = byteLength (front ++ c.text)
  apart : spans.IsChain fun s t => s.2.2.branch ≠ none ∨ t.2.2.branch ≠ none

def protectedBranches : List Branch :=
  [.singleQuoted, .doubleQuoted, .templateLiteral, .cssUrl, .regexLiteral]

structure Labelled (c : Classified) : Prop where
  literal : c.kind = .literal ↔ ∃ branch ∈ protectedBranches, c.branch = some branch
  comment : ∀ branch, c.branch = some branch → branch.isComment = true →
    c.kind = .code ∨ c.kind = .comment
  plain : c.branch = none → c.kind = .code

theorem offsetsSpans (position : Nat) (spans : List Classified) :
    (offsets position spans).map (fun s => s.2.2) = spans := by
  induction spans generalizing position with
  | nil => rfl
  | cons c rest ih => simp [offsets, ih]

theorem offsetsJoined (position : Nat) (spans : List Classified) :
    (offsets position spans).IsChain fun s t => t.1 = s.2.1 := by
  induction spans generalizing position with
  | nil => exact .nil
  | cons c rest ih =>
    refine (ih _).cons ?_
    intro next first
    cases rest with
    | nil => cases first
    | cons d rest =>
      cases Option.some.inj first
      rfl

theorem offsetsCut (position : Nat) (spans : List Classified) {start stop : Nat} {c : Classified}
    (member : (start, stop, c) ∈ offsets position spans) : ∃ front back,
      (spans.map Classified.text).flatten = front ++ c.text ++ back ∧
        start = position + byteLength front ∧
        stop = position + byteLength (front ++ c.text) := by
  induction spans generalizing position with
  | nil => cases member
  | cons d rest ih =>
    rcases List.mem_cons.mp member with here | later
    · cases here
      exact ⟨[], (rest.map Classified.text).flatten, by simp, rfl, rfl⟩
    · obtain ⟨front, back, split, starts, stops⟩ := ih _ later
      refine ⟨d.text ++ front, back, by simp [split], ?_, ?_⟩
      · rw [starts, byteLengthAppend, Nat.add_assoc]
      · rw [stops, List.append_assoc, byteLengthAppend d.text, Nat.add_assoc]

theorem offsetsLast (position : Nat) (spans : List Classified) {start stop : Nat} {c : Classified}
    (last : (offsets position spans).getLast? = some (start, stop, c)) :
    stop = position + byteLength (spans.map Classified.text).flatten := by
  induction spans generalizing position with
  | nil => cases last
  | cons d rest ih =>
    rw [List.map_cons, List.flatten_cons, byteLengthAppend, ← Nat.add_assoc]
    cases rest with
    | nil =>
      cases last
      rfl
    | cons e rest => exact ih _ (by simpa [offsets] using last)

theorem classifiedText (keep : KeepSet) (piece : Piece Find) :
    (classified keep piece).text = piece.text := by
  cases piece <;> rfl

theorem classifyFilled (o : Options) (keep : KeepSet) (text : List Char) :
    ∀ c ∈ classify o keep text, c.text ≠ [] := by
  intro c member
  obtain ⟨piece, found, rfl⟩ := List.mem_map.mp member
  rw [classifiedText]
  exact Alternation.piecesFilled piece found

theorem classifyApart (o : Options) (keep : KeepSet) (text : List Char) :
    (classify o keep text).IsChain fun c d => c.branch ≠ none ∨ d.branch ≠ none := by
  rw [classify, List.isChain_map]
  refine Alternation.gapsApart.imp ?_
  intro p q neighbours
  rcases neighbours with ⟨found, taken, rfl⟩ | ⟨found, taken, rfl⟩
  · exact .inl (by simp [classified])
  · exact .inr (by simp [classified])

theorem protectedIff (branch : Branch) : branch ∈ protectedBranches ↔ branch.isComment = false := by
  cases branch <;> decide

theorem classifiedLabelled (keep : KeepSet) (piece : Piece Find) :
    Labelled (classified keep piece) := by
  cases piece with
  | gap text => exact ⟨by simp [classified], by simp [classified], fun _ => rfl⟩
  | hit found text =>
    simp only [classified]
    cases comment : found.branch.isComment with
    | false =>
      have kind : kindOf keep found.branch text = .literal := by simp [kindOf, comment]
      refine ⟨?_, ?_, by simp⟩
      · simp [kind, protectedIff, comment]
      · intro branch same isComment
        cases same
        rw [comment] at isComment
        cases isComment
    | true =>
      have kind : kindOf keep found.branch text = .code ∨
          kindOf keep found.branch text = .comment := by
        simp only [kindOf, comment, if_true]
        split <;> simp
      refine ⟨?_, fun _ _ _ => kind, by simp⟩
      rcases kind with kind | kind <;> simp [kind, protectedIff, comment]

theorem labelledDecision {c : Classified} (labelled : Labelled c) :
    c.kind = .comment ∧ decision? c = some false ∨
      c.kind = .code ∧ c.branch ≠ none ∧ decision? c = some true ∨
      c.kind ≠ .comment ∧ (c.kind = .code → c.branch = none) ∧ decision? c = none := by
  obtain ⟨text, kind, branch⟩ := c
  cases branch with
  | none =>
    obtain rfl : kind = .code := labelled.plain rfl
    exact .inr (.inr ⟨by simp, fun _ => rfl, rfl⟩)
  | some branch =>
    cases comment : branch.isComment with
    | false =>
      obtain rfl : kind = .literal :=
        labelled.literal.mpr ⟨branch, (protectedIff branch).mpr comment, rfl⟩
      exact .inr (.inr ⟨by simp, by simp, by simp [decision?, comment]⟩)
    | true =>
      rcases labelled.comment branch rfl comment with same | same <;> cases same
      · exact .inr (.inl ⟨rfl, by simp, by simp [decision?, comment]⟩)
      · exact .inl ⟨rfl, by simp [decision?, comment]⟩

theorem tallyCounts {spans : List Classified} (labelled : ∀ c ∈ spans, Labelled c) :
    tally spans = ⟨spans.countP fun c => c.kind = .comment,
      spans.countP fun c => c.kind = .code ∧ c.branch ≠ none⟩ := by
  rw [tally, Tally.ofDecisionsCount]
  induction spans with
  | nil => rfl
  | cons c rest ih =>
    obtain ⟨removed, kept⟩ := Tally.mk.inj (ih fun d member =>
      labelled d (List.mem_cons_of_mem c member))
    simp only [List.filterMap_cons, List.countP_cons, ← removed, ← kept]
    rcases labelledDecision (labelled c List.mem_cons_self) with
      ⟨kind, decided⟩ | ⟨kind, named, decided⟩ | ⟨kind, plain, decided⟩
    · simp [kind, decided]
    · simp [kind, named, decided]
    · simpa [kind, decided] using plain

/- The spans of a text cover it from end to end without overlap, are called after their branches,
and give the tally. -/
theorem classifyPartitions (o : Options) (keep : KeepSet) (text : List Char) :
    Partition text (offsets 0 (classify o keep text)) ∧
      (∀ c ∈ classify o keep text, Labelled c) ∧
      tally (classify o keep text) =
        ⟨(classify o keep text).countP fun c => c.kind = .comment,
          (classify o keep text).countP fun c => c.kind = .code ∧ c.branch ≠ none⟩ := by
  have whole := classifyText o keep text
  have labelled : ∀ c ∈ classify o keep text, Labelled c := by
    intro c member
    obtain ⟨piece, -, rfl⟩ := List.mem_map.mp member
    exact classifiedLabelled keep piece
  have cut : ∀ start stop c, (start, stop, c) ∈ offsets 0 (classify o keep text) → ∃ front back,
      text = front ++ c.text ++ back ∧ start = byteLength front ∧
        stop = byteLength (front ++ c.text) := by
    intro start stop c member
    have found := offsetsCut 0 _ member
    simpa only [whole, Nat.zero_add] using found
  refine ⟨⟨?_, ?_, ?_, offsetsJoined 0 _, ?_, cut, ?_⟩, labelled, tallyCounts labelled⟩
  · rw [← List.map_eq_nil_iff (f := fun s : Placed => s.2.2), offsetsSpans]
    constructor
    · intro none
      rw [← whole, none]
      rfl
    · intro same
      rw [same, classify, pieces, Alternation.search, Alternation.searchFrom]
      rfl
  · intro start stop c member
    obtain ⟨front, back, -, rfl, rfl⟩ := cut start stop c member
    have known : c ∈ classify o keep text := by
      rw [← offsetsSpans 0 (classify o keep text)]
      exact List.mem_map.mpr ⟨_, member, rfl⟩
    have size := byteLengthPositive (classifyFilled o keep text c known)
    rw [byteLengthAppend]
    omega
  · intro start stop c first
    cases spans : classify o keep text with
    | nil => simp [spans, offsets] at first
    | cons d rest =>
      rw [spans] at first
      cases first
      rfl
  · intro start stop c last
    simpa only [whole, Nat.zero_add] using offsetsLast 0 _ last
  · rw [← List.isChain_map (f := fun s : Placed => s.2.2)
      (R := fun c d : Classified => c.branch ≠ none ∨ d.branch ≠ none), offsetsSpans]
    exact classifyApart o keep text

end CStyle
end CommentStrip
