import CommentStrip.Proofs.CStyle.Partition
import CommentStrip.Proofs.CStyle.Scans
import CommentStrip.Proofs.Parts

/-! The comments of a text by the C-style rules. The search that finds them asks no keep set: its
pieces become parts, and spans begin and end at the same places whatever is kept. -/
namespace CommentStrip.CStyle
open Text

def traceOf (branch : Branch) (raw : List Char) : List Char :=
  if branch = .jsxComment then collapse raw else blank raw

def partOf : Piece Find → Part
  | .gap text => .plain text
  | .hit found raw =>
    if found.branch.isComment then
      .comment ⟨[], raw, candidate found.branch raw, traceOf found.branch raw, false⟩
    else .plain raw

def parts (o : Options) (text : List Char) : List Part := (pieces o text).map partOf

def unjudged (s : Nat × Nat × Classified) : Nat × Nat × Option Branch := (s.1, s.2.1, s.2.2.branch)

theorem partText (piece : Piece Find) : (partOf piece).text = piece.text := by
  cases piece with
  | gap text => rfl
  | hit found raw =>
    rw [partOf]
    split <;> rfl

theorem cleanedGone (branch : Branch) (raw : List Char) :
    cleaned ⟨raw, .comment, some branch⟩ = traceOf branch raw := by
  cases branch <;> rfl

theorem partLeft (keep : KeepSet) (piece : Piece Find) :
    cleaned (classified keep piece) = (partOf piece).left keep ∧
      decision? (classified keep piece) = (partOf piece).decision? keep := by
  cases piece with
  | gap text => exact ⟨rfl, rfl⟩
  | hit found raw =>
    obtain ⟨branch, width⟩ := found
    cases comment : branch.isComment with
    | false =>
      have same : partOf (.hit ⟨branch, width⟩ raw) = .plain raw := by simp [partOf, comment]
      rw [same]
      exact hitLiteral keep comment width raw
    | true =>
      have same : partOf (.hit ⟨branch, width⟩ raw) =
          .comment ⟨[], raw, candidate branch raw, traceOf branch raw, false⟩ := by
        simp [partOf, comment]
      rw [same]
      simp only [Part.left, Part.decision?, Comment.stays, Bool.false_or]
      cases holds : keep.holds (candidate branch raw) with
      | true =>
        have kept : classified keep (.hit ⟨branch, width⟩ raw) = ⟨raw, .code, some branch⟩ := by
          simp [classified, kindOf, comment, holds]
        rw [kept]
        exact ⟨rfl, by simp [decision?, comment]⟩
      | false =>
        have gone : classified keep (.hit ⟨branch, width⟩ raw) = ⟨raw, .comment, some branch⟩ := by
          simp [classified, kindOf, comment, holds]
        rw [gone]
        exact ⟨cleanedGone branch raw, by simp [decision?, comment]⟩

theorem codePart {keep : KeepSet} {piece : Piece Find} (code : (classified keep piece).kind = .code)
    (branch : (classified keep piece).branch ≠ none) :
    ∃ c, partOf piece = .comment c ∧ c.stays keep = true := by
  cases piece with
  | gap text => exact absurd rfl branch
  | hit found raw =>
    simp only [classified, kindOf] at code
    split at code
    · rename_i comment
      split at code
      · rename_i holds
        exact ⟨_, if_pos comment, holds⟩
      · cases code
    · cases code

theorem spanPart {keep : KeepSet} {o : Options} {text : List Char} {before behind : List Classified}
    {c : Classified} (spans : classify o keep text = before ++ c :: behind)
    (code : c.kind = .code) (branch : c.branch ≠ none) :
    ∃ front d back, parts o text = front ++ .comment d :: back ∧ d.stays keep = true ∧
      front.flatMap Part.text = (before.map Classified.text).flatten ∧ d.text = c.text := by
  obtain ⟨earlier, more, split, rfl, rest⟩ := List.map_eq_append_iff.mp spans
  obtain ⟨piece, later, rfl, rfl, rfl⟩ := List.map_eq_cons_iff.mp rest
  obtain ⟨d, same, stays⟩ := codePart code branch
  refine ⟨earlier.map partOf, d, later.map partOf, ?_, stays, ?_, ?_⟩
  · rw [parts, split, List.map_append, List.map_cons, same]
  · rw [List.flatMap_map, List.flatMap_def, List.map_map]
    congr 1
    exact List.map_congr_left fun piece _ => (partText piece).trans (classifiedText keep piece).symm
  · rw [classifiedText, ← partText, same]
    rfl

theorem scanParted (o : Options) (keep : KeepSet) (text : List Char) :
    Parted keep (parts o text) text (scan o keep text).1 (scan o keep text).2 := by
  rw [scanPieces]
  refine ⟨?_, ?_, ?_⟩
  · have whole : (pieces o text).flatMap Piece.text = text := Alternation.searchText _ _ _
    rw [parts, List.flatMap_map]
    simpa only [partText] using whole
  · simp only [parts, List.flatMap_map, left, partLeft]
  · simp only [parts, List.filterMap_map, decisions, partLeft]
    rfl

theorem unjudgedOffsets (keep other : KeepSet) (position : Nat) (found : List (Piece Find)) :
    (offsets position (found.map (classified keep))).map unjudged =
      (offsets position (found.map (classified other))).map unjudged := by
  induction found generalizing position with
  | nil => rfl
  | cons piece rest ih =>
    cases piece with
    | gap text | hit found text => simp only [List.map_cons, classified, offsets, ih, unjudged]

theorem sameSpans (o : Options) (keep other : KeepSet) (text : List Char) :
    (offsets 0 (classify o keep text)).map unjudged =
      (offsets 0 (classify o other text)).map unjudged :=
  unjudgedOffsets keep other 0 (pieces o text)

end CommentStrip.CStyle
