import CommentStrip.Proofs.CStyle.CommentForms
import CommentStrip.Proofs.CStyle.Lexeme
import CommentStrip.Proofs.Search

/-! The scanner without brace expressions is a lexer: at each place it takes the first piece that
applies, or passes over one character. -/
namespace CommentStrip.CStyle
open Unicode Text

def ledBy : List Char → Option Branch
  | [] => none
  | c :: rest =>
    if c = '/' then
      if rest.head? = some '*' then some .blockComment
      else if rest.head? = some '/' then some .lineComment
      else some .regexLiteral
    else if c = '\'' then some .singleQuoted
    else if c = '"' then some .doubleQuoted
    else if c = '\x60' then some .templateLiteral
    else if c = 'u' then some .cssUrl
    else if c = '#' then some .hashComment
    else if c = '\x7b' then some .jsxComment
    else none

theorem lexemeLeads {branch : Branch} {taken rest : List Char} (lexeme : Lexeme branch taken rest) :
    ledBy (taken ++ rest) = some branch := by
  cases lexeme with
  | regexLiteral closed filled code letters longest =>
    rw [List.cons_append, List.append_assoc, ledBy, if_pos rfl, regexRestHead closed, if_neg code,
      if_neg filled]
  | _ => rfl

theorem jsxLeads {text : List Char} {n : Nat} (found : jsxComment text = some n) :
    ledBy text = some .jsxComment := by
  cases text with
  | nil => cases found
  | cons c rest =>
    by_cases brace : c = '\x7b'
    · subst brace
      rfl
    · rw [jsxComment] at found
      · cases found
      · intro inside same
        cases same
        exact brace rfl

theorem extentLeads {branch : Branch} {text : List Char} {n : Nat}
    (found : branch.extent text = some n) : ledBy text = some branch := by
  by_cases brace : branch = .jsxComment
  · subst brace
    exact jsxLeads found
  · obtain ⟨taken, rest, rfl, -, lexeme⟩ := (lexemeTakes brace text n).mp found
    exact lexemeLeads lexeme

def Enabled (o : Options) : Branch → Prop
  | .jsxComment => False
  | .regexLiteral => o.regexLiterals = true
  | .lineComment => o.lineComments = true
  | .hashComment => o.hashComments = true
  | _ => True

def Fits (before : List Char) (branch : Branch) (here : List Char) : Prop :=
  match branch with
  | .regexLiteral => expectsValue before = true
  | .hashComment => ¬ ['#', '['] <+: here
  | _ => True

structure Applies (o : Options) (before : List Char) (branch : Branch) (taken rest : List Char) :
    Prop where
  enabled : Enabled o branch
  lexeme : Lexeme branch taken rest
  fits : Fits before branch (taken ++ rest)

def Branch.rank : Branch → Nat
  | .jsxComment => 0
  | .singleQuoted => 1
  | .doubleQuoted => 2
  | .templateLiteral => 3
  | .cssUrl => 4
  | .regexLiteral => 5
  | .blockComment => 6
  | .lineComment => 7
  | .hashComment => 8

structure Mark where
  start : Nat
  stop : Nat
  branch : Branch
  deriving DecidableEq, Repr

/- The marks of a text from a place on. In front of it lies `before`, latest character first. -/
inductive Lexed (o : Options) : (before : List Char) → (position : Nat) → List Char → List Mark →
    Prop where
  | done {before position} : Lexed o before position [] []
  | take {before position branch taken rest marks} (applies : Applies o before branch taken rest)
      (first : ∀ earlier front back, earlier.rank < branch.rank → taken ++ rest = front ++ back →
        ¬ Applies o before earlier front back)
      (later : Lexed o (taken.reverse ++ before) (position + byteLength taken) rest marks) :
      Lexed o before position (taken ++ rest)
        (⟨position, position + byteLength taken, branch⟩ :: marks)
  | pass {before position c rest marks}
      (nothing : ∀ branch front back, c :: rest = front ++ back →
        ¬ Applies o before branch front back)
      (later : Lexed o (c :: before) (position + byteLength [c]) rest marks) :
      Lexed o before position (c :: rest) marks

def marks (position : Nat) (spans : List Classified) : List Mark :=
  (offsets position spans).filterMap fun (start, stop, c) => c.branch.map fun b => ⟨start, stop, b⟩

theorem enabledIff {o : Options} (plain : o.jsx = false) (branch : Branch) :
    branch ∈ o.branches ↔ Enabled o branch := by
  obtain ⟨jsx, line, hash, regex⟩ := o
  cases plain
  cases branch <;> cases line <;> cases hash <;> cases regex <;> simp [Options.branches, Enabled]

theorem fitsIff {before here : List Char} {found : Find} (known : found.branch ≠ .jsxComment) :
    accepts before found here = true ↔ Fits before found.branch here := by
  obtain ⟨branch, width⟩ := found
  cases branch with
  | jsxComment => exact absurd rfl known
  | hashComment => simp [accepts, Fits, ← startsWithPrefix]
  | _ => simp [accepts, Fits]

theorem findLeads {branch : Branch} {here : List Char} {found : Find}
    (read : find branch here = some found) :
    found.branch = branch ∧ ledBy here = some branch := by
  obtain ⟨width, extent, rfl⟩ := Option.map_eq_some_iff.mp read
  exact ⟨rfl, extentLeads extent⟩

theorem matchReads {o : Options} {here : List Char} {found : Find}
    (matched : (alternation o).matchAt here = some found) :
    found.branch ∈ o.branches ∧ find found.branch here = some found := by
  obtain ⟨read, known, spoke⟩ := List.exists_of_findSome?_eq_some matched
  obtain ⟨branch, listed, rfl⟩ := List.mem_map.mp known
  rw [(findLeads spoke).1]
  exact ⟨listed, spoke⟩

/- Two branches never read at the same place. -/
theorem findsAgree (o : Options) (here : List Char) :
    ∀ f ∈ (alternation o).branches, ∀ g ∈ (alternation o).branches,
      ∀ x y, f here = some x → g here = some y → x = y := by
  intro f knownF g knownG x y readX readY
  obtain ⟨a, -, rfl⟩ := List.mem_map.mp knownF
  obtain ⟨b, -, rfl⟩ := List.mem_map.mp knownG
  have same : a = b :=
    Option.some.inj ((findLeads readX).2.symm.trans (findLeads readY).2)
  subst same
  exact Option.some.inj (readX.symm.trans readY)

theorem lexemeFilled {branch : Branch} {taken rest : List Char}
    (lexeme : Lexeme branch taken rest) : taken ≠ [] := by
  cases lexeme <;> simp

theorem acceptedIff {o : Options} (plain : o.jsx = false) {before here : List Char} {found : Find} :
    (alternation o).accepted? accepts before here = some found ↔
      ∃ taken rest, here = taken ++ rest ∧ taken.length = found.width ∧
        Applies o before found.branch taken rest := by
  rw [Alternation.acceptedIff, Alternation.matchAtIff (findsAgree o here)]
  constructor
  · intro parts
    obtain ⟨⟨branch, known, read⟩, -, accepted⟩ := parts
    obtain ⟨b, listed, rfl⟩ := List.mem_map.mp known
    have enabled := (enabledIff plain b).mp listed
    have other : b ≠ .jsxComment := by
      intro same
      subst same
      exact enabled
    obtain ⟨width, extent, rfl⟩ := Option.map_eq_some_iff.mp read
    obtain ⟨taken, rest, rfl, rfl, lexeme⟩ := (lexemeTakes other here width).mp extent
    exact ⟨taken, rest, rfl, rfl, enabled, lexeme, (fitsIff other).mp accepted⟩
  · intro parts
    obtain ⟨taken, rest, rfl, long, enabled, lexeme, fits⟩ := parts
    have other : found.branch ≠ .jsxComment := by
      intro same
      rw [same] at enabled
      exact enabled
    have extent := (lexemeTakes other _ _).mpr ⟨taken, rest, rfl, long, lexeme⟩
    refine ⟨⟨find found.branch, List.mem_map_of_mem ((enabledIff plain _).mpr enabled), ?_⟩, ?_⟩
    · rw [find, extent]
      rfl
    · have filled := List.length_pos_iff.mpr (lexemeFilled lexeme)
      refine ⟨?_, (fitsIff other).mpr fits⟩
      show found.width ≠ 0
      omega

theorem marksGap (keep : KeepSet) (position : Nat) (gap : List Char) (later : List (Piece Find)) :
    marks position ((Alternation.closeGap gap later).map (classified keep)) =
      marks (position + byteLength gap) (later.map (classified keep)) := by
  unfold Alternation.closeGap
  split
  · rename_i empty
    rw [List.isEmpty_iff.mp empty]
    rfl
  · simp [marks, offsets, classified, byteLengthReverse]

theorem marksHit (keep : KeepSet) (position : Nat) (found : Find) (taken : List Char)
    (later : List (Piece Find)) :
    marks position ((Piece.hit found taken :: later).map (classified keep)) =
      ⟨position, position + byteLength taken, found.branch⟩ ::
        marks (position + byteLength taken) (later.map (classified keep)) := by
  simp [marks, offsets, classified]

theorem frontTaken {c : Char} {rest front back : List Char} (same : c :: rest = front ++ back)
    (filled : front ≠ []) :
    front = c :: rest.take (front.length - 1) ∧ back = rest.drop (front.length - 1) := by
  cases front with
  | nil => exact absurd rfl filled
  | cons d front =>
    simp only [List.cons_append, List.cons.injEq] at same
    obtain ⟨rfl, rfl⟩ := same
    simp

theorem lexedPieces {o : Options} (plain : o.jsx = false) (keep : KeepSet) (position : Nat)
    (before gap here : List Char) :
    Lexed o before (position + byteLength gap) here
      (marks position (((alternation o).searchFrom accepts before gap here).map
        (classified keep))) := by
  fun_induction Alternation.searchFrom (alternation o) accepts before gap here
      generalizing position with
  | case1 before gap =>
    rw [marksGap]
    exact .done
  | case2 before gap c rest found spoke more taken ih =>
    obtain ⟨front, back, same, long, applies⟩ := (acceptedIff plain).mp spoke
    obtain ⟨frontSame, backSame⟩ := frontTaken same (lexemeFilled applies.lexeme)
    rw [long] at frontSame backSame
    have tail := ih (position + byteLength gap + byteLength taken)
    rw [marksGap, marksHit, same]
    subst frontSame backSame
    refine .take applies ?_ tail
    intro earlier front back lower split other
    have spokeToo : (alternation o).accepted? accepts before (c :: rest) =
        some ⟨earlier, front.length⟩ :=
      (acceptedIff plain).mpr ⟨front, back, same.trans split, rfl, other⟩
    rw [spoke] at spokeToo
    cases spokeToo
    exact Nat.lt_irrefl _ lower
  | case3 before gap c rest passed ih =>
    refine .pass ?_ ?_
    · intro branch front back split applies
      have spoke : (alternation o).accepted? accepts before (c :: rest) =
          some ⟨branch, front.length⟩ :=
        (acceptedIff plain).mpr ⟨front, back, split, rfl, applies⟩
      rw [passed] at spoke
      cases spoke
    · have tail := ih position
      rw [byteLengthCons, Nat.add_comm c.utf8Size, ← Nat.add_assoc] at tail
      exact tail

theorem lexedUnique {o : Options} (plain : o.jsx = false) (keep : KeepSet)
    {before here : List Char} {place : Nat} {found : List Mark}
    (lexed : Lexed o before place here found) (position : Nat) (gap : List Char)
    (same : place = position + byteLength gap) :
    found = marks position (((alternation o).searchFrom accepts before gap here).map
      (classified keep)) := by
  induction lexed generalizing position gap with
  | done =>
    rw [Alternation.searchFrom, marksGap]
    rfl
  | @take before place branch taken rest found applies first later ih =>
    have spoke : (alternation o).accepted? accepts before (taken ++ rest) =
        some ⟨branch, taken.length⟩ :=
      (acceptedIff plain).mpr ⟨taken, rest, rfl, rfl, applies⟩
    rw [Alternation.searchTaken (lexemeFilled applies.lexeme) rfl spoke, marksGap, marksHit, same]
    rw [ih (position + byteLength gap + byteLength taken) [] (by rw [same]; rfl)]
  | @pass before place c rest found nothing later ih =>
    have passed : (alternation o).accepted? accepts before (c :: rest) = none := by
      rw [Option.eq_none_iff_forall_ne_some]
      intro other spoke
      obtain ⟨front, back, split, -, applies⟩ := (acceptedIff plain).mp spoke
      exact nothing _ front back split applies
    rw [Alternation.searchPast passed]
    apply ih position (c :: gap)
    rw [byteLengthCons, byteLengthCons, byteLengthNil]
    omega

theorem lexedIff {o : Options} (plain : o.jsx = false) (keep : KeepSet) (text : List Char)
    (found : List Mark) :
    Lexed o [] 0 text found ↔ found = marks 0 (classify o keep text) := by
  constructor
  · intro lexed
    exact lexedUnique plain keep lexed 0 [] rfl
  · intro same
    subst same
    exact lexedPieces plain keep 0 [] [] text

def written (o : Options) : Alternation Find :=
  ⟨o.branches.map fun branch text =>
    (branch.expression.extent text).map fun width => ⟨branch, width⟩, Find.width⟩

theorem writtenSame (o : Options) : written o = alternation o := by
  have same : (fun (branch : Branch) text =>
      (branch.expression.extent text).map fun width => Find.mk branch width) = find := by
    funext branch text
    rw [expressionExtent, find]
  rw [written, same, alternation]

/- The finds of the regular expressions are the spans of the lexer, and there is one lexing. -/
theorem classifyLexes {o : Options} (plain : o.jsx = false) (keep : KeepSet) (text : List Char) :
    classify o keep text = ((written o).search accepts text).map (classified keep) ∧
      ∀ found, Lexed o [] 0 text found ↔ found = marks 0 (classify o keep text) := by
  refine ⟨?_, lexedIff plain keep text⟩
  rw [writtenSame]
  rfl

theorem classifyLexesScript :
    (Options.script false).jsx = false ∧
      Lexed (.script false) [] 0 "x = /[/]'/g; y = '\\'//'; // z".toList
        [⟨4, 11, .regexLiteral⟩, ⟨17, 23, .singleQuoted⟩, ⟨25, 29, .lineComment⟩] :=
  ⟨rfl, ((classifyLexes rfl .empty _).2 _).mpr (by decide +kernel)⟩

end CommentStrip.CStyle
