import CommentStrip.Proofs.CStyle.Braces
import CommentStrip.Proofs.Text.Blanked

/-! The scan as a relation between a text, what is left of it, and the decisions on its comments.
It is the lexer's relation with the output beside it. -/
namespace CommentStrip.CStyle
open Unicode Text

/- What stands in front of a place can go on behind it: a backslash takes the next character, a
slash begins a comment or has flags, and `url` opens with a parenthesis. -/
def joins (before : List Char) : Bool :=
  before.head? == some '\\' || (before.dropWhile isRegexFlag).head? == some '/' ||
    ["u".toList, "ur".toList, "url".toList].any fun word => startsWith word.reverse before

structure Goes (o : Options) (keep : KeepSet) (before taken rest : List Char) : Prop where
  opens : OpensBrace o before taken rest
  gone : keep.holds (jsxInner taken) = false

inductive Scans (o : Options) (keep : KeepSet) :
    (before here out : List Char) → (decisions : List Bool) → Prop where
  | done {before} : Scans o keep before [] [] []
  | past {before c rest out decisions}
      (passed : (alternation o).accepted? accepts before (c :: rest) = none)
      (later : Scans o keep (c :: before) rest out decisions) :
      Scans o keep before (c :: rest) (c :: out) decisions
  | literal {before branch taken rest out decisions} (applies : Applies o before branch taken rest)
      (solid : branch.isComment = false)
      (later : Scans o keep (taken.reverse ++ before) rest out decisions) :
      Scans o keep before (taken ++ rest) (taken ++ out) decisions
  | kept {before branch taken rest out decisions} (applies : Applies o before branch taken rest)
      (comment : branch.isComment = true) (holds : keep.holds taken = true)
      (later : Scans o keep (taken.reverse ++ before) rest out decisions) :
      Scans o keep before (taken ++ rest) (taken ++ out) (true :: decisions)
  | gone {before branch taken rest out decisions} (applies : Applies o before branch taken rest)
      (comment : branch.isComment = true) (gone : keep.holds taken = false)
      (later : Scans o keep (taken.reverse ++ before) rest out decisions) :
      Scans o keep before (taken ++ rest) (blank taken ++ out) (false :: decisions)
  | braceKept {before taken rest out decisions} (opens : OpensBrace o before taken rest)
      (holds : keep.holds (jsxInner taken) = true)
      (later : Scans o keep (taken.reverse ++ before) rest out decisions) :
      Scans o keep before (taken ++ rest) (taken ++ out) (true :: decisions)
  | braceGone {before taken rest out decisions} (goes : Goes o keep before taken rest)
      (apart : joins before = false)
      (later : Scans o keep (taken.reverse ++ before) rest out decisions) :
      Scans o keep before (taken ++ rest) (collapse taken ++ out) (false :: decisions)

def left (keep : KeepSet) (found : List (Piece Find)) : List Char :=
  found.flatMap fun piece => cleaned (classified keep piece)

def decisions (keep : KeepSet) (found : List (Piece Find)) : List Bool :=
  found.filterMap fun piece => decision? (classified keep piece)

theorem scanPieces (o : Options) (keep : KeepSet) (text : List Char) :
    scan o keep text = (left keep (pieces o text), .ofDecisions (decisions keep (pieces o text))) := by
  simp only [scan, clean, tally, classify, left, decisions, List.flatMap_map, List.filterMap_map]
  rfl

theorem leftGap (keep : KeepSet) (gap : List Char) (later : List (Piece Find)) :
    left keep (Alternation.closeGap gap later) = gap.reverse ++ left keep later := by
  unfold Alternation.closeGap
  split
  · rename_i empty
    simp [List.isEmpty_iff.mp empty]
  · simp [left, classified, cleaned]

theorem decisionsGap (keep : KeepSet) (gap : List Char) (later : List (Piece Find)) :
    decisions keep (Alternation.closeGap gap later) = decisions keep later := by
  unfold Alternation.closeGap
  split
  · rfl
  · simp [decisions, classified, decision?]

theorem leftHit (keep : KeepSet) (found : Find) (taken : List Char) (later : List (Piece Find)) :
    left keep (.hit found taken :: later) =
      cleaned (classified keep (.hit found taken)) ++ left keep later := rfl

theorem decisionsHit (keep : KeepSet) (found : Find) (taken : List Char)
    (later : List (Piece Find)) :
    decisions keep (.hit found taken :: later) =
      (decision? (classified keep (.hit found taken))).toList ++ decisions keep later := by
  simp only [decisions, List.filterMap_cons]
  cases decision? (classified keep (.hit found taken)) <;> rfl

theorem hitLiteral (keep : KeepSet) {branch : Branch} (solid : branch.isComment = false)
    (width : Nat) (taken : List Char) :
    cleaned (classified keep (.hit ⟨branch, width⟩ taken)) = taken ∧
      decision? (classified keep (.hit ⟨branch, width⟩ taken)) = none := by
  cases branch with
  | singleQuoted | doubleQuoted | templateLiteral | cssUrl | regexLiteral => exact ⟨rfl, rfl⟩
  | jsxComment | blockComment | lineComment | hashComment => cases solid

theorem hitKept {keep : KeepSet} {branch : Branch} (other : branch ≠ .jsxComment)
    (comment : branch.isComment = true) {taken : List Char} (holds : keep.holds taken = true)
    (width : Nat) :
    cleaned (classified keep (.hit ⟨branch, width⟩ taken)) = taken ∧
      decision? (classified keep (.hit ⟨branch, width⟩ taken)) = some true := by
  simp [classified, kindOf, comment, candidate, other, holds, cleaned, decision?]

theorem hitGone {keep : KeepSet} {branch : Branch} (other : branch ≠ .jsxComment)
    (comment : branch.isComment = true) {taken : List Char} (gone : keep.holds taken = false)
    (width : Nat) :
    cleaned (classified keep (.hit ⟨branch, width⟩ taken)) = blank taken ∧
      decision? (classified keep (.hit ⟨branch, width⟩ taken)) = some false := by
  simp [classified, kindOf, comment, candidate, other, gone, cleaned, decision?]

theorem scansApplied {o : Options} {keep : KeepSet} {before taken rest out : List Char}
    {branch : Branch} {judged : List Bool} (applies : Applies o before branch taken rest)
    (later : Scans o keep (taken.reverse ++ before) rest out judged) (width : Nat) :
    Scans o keep before (taken ++ rest)
      (cleaned (classified keep (.hit ⟨branch, width⟩ taken)) ++ out)
      ((decision? (classified keep (.hit ⟨branch, width⟩ taken))).toList ++ judged) := by
  have other := appliesOther applies
  cases comment : branch.isComment with
  | false =>
    obtain ⟨same, decided⟩ := hitLiteral keep comment width taken
    rw [same, decided]
    exact .literal applies comment later
  | true =>
    cases holds : keep.holds taken with
    | true =>
      obtain ⟨same, decided⟩ := hitKept other comment holds width
      rw [same, decided]
      exact .kept applies comment holds later
    | false =>
      obtain ⟨same, decided⟩ := hitGone other comment holds width
      rw [same, decided]
      exact .gone applies comment holds later

theorem hitBrace (keep : KeepSet) (width : Nat) (taken : List Char) :
    cleaned (classified keep (.hit ⟨.jsxComment, width⟩ taken)) =
        (if keep.holds (jsxInner taken) then taken else collapse taken) ∧
      decision? (classified keep (.hit ⟨.jsxComment, width⟩ taken)) =
        some (keep.holds (jsxInner taken)) := by
  cases holds : keep.holds (jsxInner taken) with
  | true | false =>
    simp [classified, kindOf, Branch.isComment, candidate, holds, cleaned, decision?]

def BracesApart (o : Options) (keep : KeepSet) (text : List Char) : Prop :=
  ∀ {before taken rest}, (alternation o).Visits accepts text before (taken ++ rest) →
    Goes o keep before taken rest → joins before = false

theorem plainApart {o : Options} (plain : o.jsx = false) (keep : KeepSet) (text : List Char) :
    BracesApart o keep text := fun _ goes => absurd goes.opens (plainBraceless plain)

theorem scansPieces {o : Options} {keep : KeepSet} {text : List Char}
    (apart : BracesApart o keep text) {before here : List Char}
    (seen : (alternation o).Visits accepts text before here) (gap : List Char) :
    ∃ out, left keep ((alternation o).searchFrom accepts before gap here) = gap.reverse ++ out ∧
      Scans o keep before here out
        (decisions keep ((alternation o).searchFrom accepts before gap here)) := by
  revert seen
  fun_induction Alternation.searchFrom (alternation o) accepts before gap here with
  | case1 before gap =>
    intro seen
    rw [leftGap, decisionsGap]
    exact ⟨[], rfl, .done⟩
  | case2 before gap c rest found spoke more taken ih =>
    intro seen
    obtain ⟨front, back, same, long, form⟩ := acceptedCases spoke
    have filled : front ≠ [] := form.elim (fun applies => lexemeFilled applies.lexeme)
      (fun opens => opens.2.filled)
    obtain ⟨frontSame, backSame⟩ := frontTaken same filled
    rw [long] at frontSame backSame
    obtain ⟨out, leaves, scanned⟩ := ih (.taken seen spoke)
    refine ⟨cleaned (classified keep (.hit found taken)) ++ out, ?_, ?_⟩
    · rw [leftGap, leftHit, leaves]
      rfl
    · rw [decisionsGap, decisionsHit, same]
      rw [same] at seen
      subst frontSame backSame
      rcases form with applies | ⟨brace, opens⟩
      · exact scansApplied applies scanned found.width
      · obtain ⟨branch, width⟩ := found
        subst brace
        obtain ⟨leaves, decided⟩ := hitBrace keep width taken
        rw [leaves, decided]
        cases holds : keep.holds (jsxInner taken) with
        | true => exact .braceKept opens holds scanned
        | false => exact .braceGone ⟨opens, holds⟩ (apart seen ⟨opens, holds⟩) scanned
  | case3 before gap c rest passed ih =>
    intro seen
    obtain ⟨out, leaves, scanned⟩ := ih (.past seen passed)
    exact ⟨c :: out, by rw [leaves]; simp, .past passed scanned⟩

theorem hitSearched {o : Options} {keep : KeepSet} {before taken rest out : List Char}
    {branch : Branch} {judged : List Bool} (filled : taken ≠ [])
    (spoke : (alternation o).accepted? accepts before (taken ++ rest) =
      some ⟨branch, taken.length⟩) (gap : List Char)
    (ih : ∀ gap, left keep ((alternation o).searchFrom accepts (taken.reverse ++ before) gap rest) =
        gap.reverse ++ out ∧
      decisions keep ((alternation o).searchFrom accepts (taken.reverse ++ before) gap rest) =
        judged) :
    left keep ((alternation o).searchFrom accepts before gap (taken ++ rest)) =
        gap.reverse ++ (cleaned (classified keep (.hit ⟨branch, taken.length⟩ taken)) ++ out) ∧
      decisions keep ((alternation o).searchFrom accepts before gap (taken ++ rest)) =
        (decision? (classified keep (.hit ⟨branch, taken.length⟩ taken))).toList ++ judged := by
  obtain ⟨leaves, decides⟩ := ih []
  rw [Alternation.searchTaken filled rfl spoke, leftGap, decisionsGap, leftHit, decisionsHit,
    leaves, decides]
  exact ⟨rfl, rfl⟩

theorem appliesSpeaks {o : Options} {before taken rest : List Char} {branch : Branch}
    (applies : Applies o before branch taken rest) :
    (alternation o).accepted? accepts before (taken ++ rest) = some ⟨branch, taken.length⟩ :=
  (appliedIff (appliesOther applies)).mpr ⟨taken, rest, rfl, rfl, applies⟩

theorem OpensBrace.speaks {o : Options} {before taken rest : List Char}
    (opens : OpensBrace o before taken rest) :
    (alternation o).accepted? accepts before (taken ++ rest) =
      some ⟨.jsxComment, taken.length⟩ := braceIff.mpr ⟨taken, rest, rfl, rfl, opens⟩

theorem scansUnique {o : Options} {keep : KeepSet} {before here out : List Char}
    {judged : List Bool} (scanned : Scans o keep before here out judged) (gap : List Char) :
    left keep ((alternation o).searchFrom accepts before gap here) = gap.reverse ++ out ∧
      decisions keep ((alternation o).searchFrom accepts before gap here) = judged := by
  induction scanned generalizing gap with
  | done =>
    rw [Alternation.searchFrom, leftGap, decisionsGap]
    exact ⟨rfl, rfl⟩
  | @past before c rest out judged passed later ih =>
    obtain ⟨leaves, decides⟩ := ih (c :: gap)
    rw [Alternation.searchPast passed, leaves, decides]
    exact ⟨by simp, rfl⟩
  | @literal before branch taken rest out judged applies solid later ih =>
    obtain ⟨same, decided⟩ := hitLiteral keep solid taken.length taken
    have here := hitSearched (lexemeFilled applies.lexeme) (appliesSpeaks applies) gap ih
    rwa [same, decided] at here
  | @kept before branch taken rest out judged applies comment holds later ih =>
    obtain ⟨same, decided⟩ := hitKept (appliesOther applies) comment holds taken.length
    have here := hitSearched (lexemeFilled applies.lexeme) (appliesSpeaks applies) gap ih
    rwa [same, decided] at here
  | @gone before branch taken rest out judged applies comment goes later ih =>
    obtain ⟨same, decided⟩ := hitGone (appliesOther applies) comment goes taken.length
    have here := hitSearched (lexemeFilled applies.lexeme) (appliesSpeaks applies) gap ih
    rwa [same, decided] at here
  | @braceKept before taken rest out judged opens holds later ih =>
    obtain ⟨same, decided⟩ := hitBrace keep taken.length taken
    have here := hitSearched opens.filled opens.speaks gap ih
    rwa [same, decided, holds] at here
  | @braceGone before taken rest out judged goes apart later ih =>
    obtain ⟨same, decided⟩ := hitBrace keep taken.length taken
    have here := hitSearched goes.opens.filled goes.opens.speaks gap ih
    rwa [same, decided, goes.gone] at here

theorem scanScans {o : Options} {keep : KeepSet} {text : List Char}
    (apart : BracesApart o keep text) :
    Scans o keep [] text (scan o keep text).1 (decisions keep (pieces o text)) := by
  obtain ⟨out, leaves, scanned⟩ := scansPieces apart .start []
  rw [List.reverse_nil, List.nil_append] at leaves
  rw [scanPieces, pieces, Alternation.search, leaves]
  exact scanned

end CommentStrip.CStyle
