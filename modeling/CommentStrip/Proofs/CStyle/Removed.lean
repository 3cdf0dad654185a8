import CommentStrip.Proofs.CStyle.Rescan
import CommentStrip.Proofs.Tally
import CommentStrip.Proofs.Text.Removal

/-! What a scan leaves of a text shows whether it removed a comment: no comment begins with a
space or a line break, so that no comment looks like what is left of it. -/
namespace CommentStrip.CStyle
open Unicode Text

theorem ledVisible {here : List Char} {branch : Branch} (leads : ledBy here = some branch) :
    Visible here := by
  cases here with
  | nil => cases leads
  | cons c rest =>
    refine ⟨c, rest, rfl, ?_, ?_⟩
    · cases lineBreak : isBreak c with
      | false => rfl
      | true =>
        rw [gapUnled (.inr lineBreak)] at leads
        cases leads
    · intro same
      rw [gapUnled (.inl same)] at leads
      cases leads

theorem hitVisible {o : Options} {text taken : List Char} {found : Find}
    (member : .hit found taken ∈ pieces o text) : Visible taken := by
  obtain ⟨rest, matched⟩ := Alternation.hitsRead member
  obtain ⟨c, inner, same, inLine, other⟩ := ledVisible (findLeads (matchReads matched).2).2
  cases taken with
  | nil => exact absurd rfl (Alternation.piecesFilled _ member)
  | cons d taken =>
    cases same
    exact ⟨c, taken, rfl, inLine, other⟩

theorem hitRemoval (keep : KeepSet) (found : Find) {taken : List Char} (visible : Visible taken) :
    Removal taken (cleaned (classified keep (.hit found taken)))
      ((decision? (classified keep (.hit found taken))).toList.count false) := by
  obtain ⟨branch, width⟩ := found
  cases comment : branch.isComment with
  | false =>
    obtain ⟨same, decided⟩ := hitLiteral keep comment width taken
    rw [same, decided]
    exact .kept taken
  | true =>
    cases holds : keep.holds (candidate branch taken) with
    | true =>
      have same : cleaned (classified keep (.hit ⟨branch, width⟩ taken)) = taken := by
        simp [classified, kindOf, comment, holds, cleaned]
      have decided : decision? (classified keep (.hit ⟨branch, width⟩ taken)) = some true := by
        simp [classified, kindOf, comment, holds, decision?]
      rw [same, decided]
      exact .kept taken
    | false =>
      have decided : decision? (classified keep (.hit ⟨branch, width⟩ taken)) = some false := by
        simp [classified, kindOf, comment, holds, decision?]
      rw [decided]
      by_cases brace : branch = .jsxComment
      · subst brace
        have same : cleaned (classified keep (.hit ⟨.jsxComment, width⟩ taken)) = collapse taken := by
          simp [classified, kindOf, comment, holds, cleaned]
        rw [same]
        exact collapseRemoval visible
      · have same : cleaned (classified keep (.hit ⟨branch, width⟩ taken)) = blank taken := by
          simp [classified, kindOf, comment, holds, cleaned, brace]
        rw [same]
        exact blankRemoval visible

theorem piecesRemoval (keep : KeepSet) {found : List (Piece Find)}
    (visible : ∀ read taken, .hit read taken ∈ found → Visible taken) :
    Removal (found.flatMap Piece.text) (left keep found) ((decisions keep found).count false) := by
  induction found with
  | nil => exact .kept []
  | cons piece later ih =>
    have rest := ih fun read taken member => visible read taken (List.mem_cons_of_mem piece member)
    cases piece with
    | gap gap =>
      have gap := (Removal.kept gap).append rest
      rwa [Nat.zero_add] at gap
    | hit read taken =>
      rw [decisionsHit, List.count_append]
      exact (hitRemoval keep read (visible read taken List.mem_cons_self)).append rest

theorem scanRemoval (o : Options) (keep : KeepSet) (text : List Char) :
    Removal text (scan o keep text).1 (scan o keep text).2.removed := by
  have whole : (pieces o text).flatMap Piece.text = text := Alternation.searchText _ _ _
  have removal := piecesRemoval keep fun read taken (member : _ ∈ pieces o text) => hitVisible member
  rw [whole] at removal
  rwa [scanPieces, Tally.ofDecisionsCount]

end CommentStrip.CStyle
