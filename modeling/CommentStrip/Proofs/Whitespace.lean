import CommentStrip.Proofs.Text.Breaks
import CommentStrip.Proofs.Text.Trim
import CommentStrip.Whitespace
import Mathlib.Data.List.DropRight

/-! Tidied text, as the rows that are left of its lines. A second pass reads the rows back, but
takes the blank ones at the end for line breaks that end the text. -/
namespace CommentStrip.Whitespace
open Unicode Text

structure Neat (line : List Char) : Prop where
  within : '\n' ∉ line
  solid : ∀ c, line.getLast? = some c → isWhite c = false

def EndsFilled (rows : List (List Char)) : Prop := ∀ row, rows.getLast? = some row → row ≠ []

theorem filledConcat {rows : List (List Char)} {row : List Char} (filled : row ≠ []) :
    EndsFilled (rows ++ [row]) := by
  intro last same
  rw [List.getLast?_concat, Option.some_inj] at same
  rwa [← same]

def written (ending : LineEnding) (rows : List (List Char)) : List Char :=
  joinWith ending.text rows ++ ending.text

def trimmedLines (text : List Char) : List (List Char) :=
  (lines (dropEndWhile isBreak text)).map trimEnd

def rowsOf (limit : Option Nat) (text : List Char) : List (List Char) :=
  shrinkRuns limit 0 (trimmedLines text)

theorem normalizeWritten (limit : Option Nat) (text : List Char) :
    normalize limit text = written (lineEnding text) (rowsOf limit text) := rfl

theorem endingBreak (ending : LineEnding) : ∀ c ∈ ending.text, isBreak c = true := by
  cases ending <;> simp [LineEnding.text, isBreak]

theorem Neat.trimmed {line : List Char} (neat : Neat line) : trimEnd line = line := by
  simpa using trimEndWhite neat.solid (List.forall_mem_nil _)

theorem Neat.other {line : List Char} (neat : Neat line) : line.getLast? ≠ some '\r' := by
  intro last
  exact absurd (neat.solid '\r' last) (by decide)

theorem Neat.first {line : List Char} (neat : Neat line) (ending : LineEnding) (rest : List Char) :
    lines (line ++ ending.text ++ rest) = line :: lines rest := by
  have cut : LineCut line ending.text rest := by
    refine ⟨neat.within, ?_⟩
    cases ending with
    | lf => exact .inr (.inl ⟨rfl, neat.other⟩)
    | crlf => exact .inr (.inr rfl)
  have filled : line ++ ending.text ≠ [] := by cases ending <;> simp [LineEnding.text]
  exact cut.first filled

theorem trimmedNeat (text : List Char) : ∀ row ∈ trimmedLines text, Neat row := by
  intro row member
  obtain ⟨line, found, rfl⟩ := List.mem_map.mp member
  refine ⟨?_, fun c => trimEndLast⟩
  intro feed
  exact linesWithin _ line found ((dropEndWhilePrefix _ line).mem feed)

section
variable {limit : Option Nat}

/- No more blank rows stand together than the limit allows; `run` of them stand in front. -/
inductive Short (limit : Option Nat) : (run : Nat) → List (List Char) → Prop where
  | nil {run} : Short limit run []
  | blank {run rest} (room : limit.all (fun limit => decide (run ≤ limit)) = true)
      (later : Short limit (run + 1) rest) : Short limit run ([] :: rest)
  | line {run row rest} (filled : row ≠ []) (later : Short limit 0 rest) :
      Short limit run (row :: rest)

namespace Short

theorem earlier {run : Nat} {rows : List (List Char)} (short : Short limit (run + 1) rows) :
    Short limit run rows := by
  induction rows generalizing run with
  | nil => exact .nil
  | cons row rest ih =>
    cases short with
    | blank room later =>
      refine .blank ?_ (ih later)
      cases limit with
      | none => rfl
      | some limit =>
        simp only [Option.all_some, decide_eq_true_eq] at room ⊢
        omega
    | line filled later => exact .line filled later

theorem shrunk (limit : Option Nat) (run : Nat) (rows : List (List Char)) :
    Short limit run (shrinkRuns limit run rows) := by
  fun_induction shrinkRuns limit run rows with
  | case1 => exact .nil
  | case2 run row rest blank room ih =>
    rw [List.isEmpty_iff.mp blank]
    exact .blank room ih
  | case3 run row rest blank full ih => exact ih.earlier
  | case4 run row rest filled ih => exact .line (by simpa using filled) ih

theorem same {run : Nat} {rows : List (List Char)} (short : Short limit run rows) :
    shrinkRuns limit run rows = rows := by
  induction short with
  | nil => rfl
  | blank room later ih => simp only [shrinkRuns, List.isEmpty_nil, if_true, if_pos room, ih]
  | line filled later ih => simp only [shrinkRuns, List.isEmpty_iff, if_neg filled, ih]

theorem front {run : Nat} {rows more : List (List Char)} (short : Short limit run (rows ++ more)) :
    Short limit run rows := by
  induction rows generalizing run with
  | nil => exact .nil
  | cons row rest ih =>
    cases short with
    | blank room later => exact .blank room (ih later)
    | line filled later => exact .line filled (ih later)

end Short

theorem shrinkMember {run : Nat} {rows : List (List Char)} :
    ∀ row ∈ shrinkRuns limit run rows, row ∈ rows := by
  fun_induction shrinkRuns limit run rows with
  | case1 => exact List.forall_mem_nil _
  | case2 run row rest blank room ih | case4 run row rest filled ih =>
    intro other member
    rcases List.mem_cons.mp member with rfl | later
    · exact List.mem_cons_self
    · exact List.mem_cons_of_mem row (ih other later)
  | case3 run row rest blank full ih =>
    intro other member
    exact List.mem_cons_of_mem row (ih other member)

theorem rowsNeat (limit : Option Nat) (text : List Char) : ∀ row ∈ rowsOf limit text, Neat row :=
  fun row member => trimmedNeat text row (shrinkMember row member)

theorem shrinkAcross {run : Nat} (front : List (List Char)) {row : List Char} (filled : row ≠ [])
    (back : List (List Char)) :
    shrinkRuns limit run (front ++ row :: back) =
      shrinkRuns limit run front ++ row :: shrinkRuns limit 0 back := by
  induction front generalizing run with
  | nil => simp [shrinkRuns, filled]
  | cons other front ih =>
    simp only [List.cons_append, shrinkRuns, ih]
    split
    · split <;> rfl
    · rfl

theorem shrinkFilled {rows : List (List Char)} (last : EndsFilled rows) :
    EndsFilled (shrinkRuns limit 0 rows) := by
  cases rows using List.reverseRecOn with
  | nil => exact last
  | append_singleton rows row =>
    have filled : row ≠ [] := last row (by simp)
    rw [shrinkAcross rows filled, shrinkRuns]
    exact filledConcat filled

theorem shrinkStart (row : List Char) (rest : List (List Char)) :
    shrinkRuns limit 0 (row :: rest) =
      row :: shrinkRuns limit (if row = [] then 1 else 0) rest := by
  by_cases blank : row = []
  · have room : limit.all (fun limit => decide (0 ≤ limit)) = true := by cases limit <;> simp
    rw [shrinkRuns, if_pos (List.isEmpty_iff.mpr blank), if_pos room, if_pos blank]
  · rw [shrinkRuns, if_neg (mt List.isEmpty_iff.mp blank), if_neg blank]

theorem lastCons {α : Type} {first last : α} {rest : List α}
    (ends : (first :: rest).getLast? = some last) :
    last = first ∧ rest = [] ∨ rest.getLast? = some last := by
  cases rest with
  | nil => exact .inl ⟨(Option.some.inj ends).symm, rfl⟩
  | cons next rest => exact .inr (by rwa [List.getLast?_cons_cons] at ends)

theorem shrinkBlank {run : Nat} {rows : List (List Char)} (last : rows.getLast? = some []) :
    ∀ row, (shrinkRuns limit run rows).getLast? = some row → row = [] := by
  induction rows generalizing run with
  | nil => cases last
  | cons row rest ih =>
    intro other same
    rcases lastCons last with ⟨rfl, rfl⟩ | later
    · exact List.mem_singleton.mp (shrinkMember other (List.mem_of_getLast? same))
    · rw [shrinkRuns] at same
      split at same
      · rename_i blank
        split at same
        · rcases lastCons same with ⟨rfl, -⟩ | behind
          · exact List.isEmpty_iff.mp blank
          · exact ih later other behind
        · exact ih later other same
      · rcases lastCons same with ⟨-, none⟩ | behind
        · cases rest with
          | nil => cases later
          | cons next rest =>
            rw [shrinkStart] at none
            cases none
        · exact ih later other behind

theorem shrinkNothing {run : Nat} {rows : List (List Char)}
    (none : shrinkRuns limit run rows = []) : ∀ row ∈ rows, row = [] := by
  fun_induction shrinkRuns limit run rows with
  | case1 => exact List.forall_mem_nil _
  | case2 | case4 => cases none
  | case3 run row rest blank full ih =>
    exact List.forall_mem_cons.mpr ⟨List.isEmpty_iff.mp blank, ih none⟩

theorem shrinkAll {rows : List (List Char)} (blank : ∀ row ∈ rows, row = []) (run : Nat) :
    shrinkRuns (some 0) (run + 1) rows = [] := by
  induction rows generalizing run with
  | nil => rfl
  | cons row rest ih =>
    obtain ⟨rfl, later⟩ := List.forall_mem_cons.mp blank
    simp [shrinkRuns, ih later]

theorem shrinkOne {rows : List (List Char)} (filled : rows ≠ []) :
    shrinkRuns limit 0 rows = [[]] ↔
      rows = [[]] ∨ limit = some 0 ∧ ∀ row ∈ rows, row = [] := by
  obtain ⟨row, rest, rfl⟩ := List.exists_cons_of_ne_nil filled
  rw [shrinkStart]
  constructor
  · intro one
    obtain ⟨rfl, none⟩ := List.cons.inj one
    rw [if_pos rfl] at none
    cases rest with
    | nil => exact .inl rfl
    | cons next rest =>
      have blank := shrinkNothing none
      obtain rfl := blank next List.mem_cons_self
      have full : limit.all (fun limit => decide (1 ≤ limit)) = false := by
        rw [Bool.eq_false_iff]
        intro room
        rw [shrinkRuns, if_pos List.isEmpty_nil, if_pos room] at none
        cases none
      refine .inr ⟨?_, List.forall_mem_cons.mpr ⟨rfl, blank⟩⟩
      cases limit with
      | none => cases full
      | some limit => simpa using full
  · intro parts
    rcases parts with one | ⟨rfl, blank⟩
    · obtain ⟨rfl, rfl⟩ := List.cons.inj one
      rfl
    · obtain ⟨rfl, later⟩ := List.forall_mem_cons.mp blank
      rw [if_pos rfl, shrinkAll later]

end

theorem joinCons (mark part : List Char) {rest : List (List Char)} (filled : rest ≠ []) :
    joinWith mark (part :: rest) = part ++ mark ++ joinWith mark rest := by
  cases rest with
  | nil => exact absurd rfl filled
  | cons next rest => rfl

theorem joinLast (mark : List Char) {rows : List (List Char)} (filled : rows ≠ [])
    (row : List Char) : joinWith mark (rows ++ [row]) = joinWith mark rows ++ mark ++ row := by
  induction rows with
  | nil => exact absurd rfl filled
  | cons part rest ih =>
    by_cases more : rest = []
    · rw [more]
      rfl
    · rw [List.cons_append, joinCons mark part (by simp), ih more, joinCons mark part more]
      simp

section
variable {rows : List (List Char)} (neat : ∀ row ∈ rows, Neat row)
include neat

theorem linesJoin (ending : LineEnding) (last : EndsFilled rows) :
    lines (joinWith ending.text rows) = rows := by
  induction rows with
  | nil => rfl
  | cons row rest ih =>
    obtain ⟨here, behind⟩ := List.forall_mem_cons.mp neat
    by_cases more : rest = []
    · subst more
      have filled : row ≠ [] := last row rfl
      have cut : LineCut row [] [] := ⟨here.within, .inl ⟨rfl, rfl⟩⟩
      simpa [joinWith, lines, linesInclusive] using cut.first (by simpa using filled)
    · have lastToo : EndsFilled rest := by
        intro other same
        exact last other (by rw [List.getLast?_cons, same]; rfl)
      rw [joinCons _ row more, here.first, ih behind lastToo]

theorem joinSolid (ending : LineEnding) (last : EndsFilled rows) :
    ∀ c, (joinWith ending.text rows).getLast? = some c → isWhite c = false := by
  intro c ends
  cases rows using List.reverseRecOn with
  | nil => cases ends
  | append_singleton rows row =>
    have filled : row ≠ [] := last row (by simp)
    have here : Neat row := neat row (by simp)
    apply here.solid
    by_cases alone : rows = []
    · subst alone
      exact ends
    · rw [joinLast _ alone, List.getLast?_append] at ends
      obtain ⟨d, same⟩ := Option.ne_none_iff_exists'.mp (mt List.getLast?_eq_none_iff.mp filled)
      rw [same] at ends ⊢
      exact ends

theorem dropJoined (ending : LineEnding) (last : EndsFilled rows) :
    dropEndWhile isBreak (joinWith ending.text rows) = joinWith ending.text rows := by
  show (joinWith ending.text rows).rdropWhile isBreak = _
  rw [List.rdropWhile_eq_self_iff]
  intro filled lineBreak
  have solid := joinSolid neat ending last _ (List.getLast?_eq_some_getLast filled)
  rw [breakWhite lineBreak] at solid
  cases solid

theorem dropWritten (ending : LineEnding) :
    dropEndWhile isBreak (written ending rows) =
      joinWith ending.text (rows.rdropWhile List.isEmpty) := by
  induction rows using List.reverseRecOn with
  | nil => cases ending <;> rfl
  | append_singleton rows row ih =>
    by_cases blank : row = []
    · subst blank
      rw [List.rdropWhile_concat_pos _ _ _ rfl,
        ← ih fun other member => neat other (List.mem_append_left _ member)]
      by_cases alone : rows = []
      · rw [alone]
        rfl
      · rw [written, joinLast _ alone, List.append_nil, dropEndBehind _ (endingBreak ending)]
        rfl
    · rw [List.rdropWhile_concat_neg _ _ _ (by simpa using blank), written,
        dropEndBehind _ (endingBreak ending)]
      exact dropJoined neat ending (filledConcat blank)

omit neat in
theorem endingAfter {row : List Char} (within : '\n' ∉ row) (previous : Char)
    (rest : List Char) :
    lineEndingAfter previous (row ++ '\n' :: rest) =
      if row.getLast?.getD previous = '\r' then .crlf else .lf := by
  induction row generalizing previous with
  | nil => rfl
  | cons c row ih =>
    rw [List.mem_cons, not_or] at within
    rw [List.cons_append, lineEndingAfter, if_neg (Ne.symm within.1), ih within.2,
      List.getLast?_cons, Option.getD_some]

theorem writtenStarts (ending : LineEnding) :
    ∃ first rest, Neat first ∧ written ending rows = first ++ (ending.text ++ rest) := by
  cases rows with
  | nil => exact ⟨[], [], ⟨by simp, by simp⟩, by simp [written, joinWith]⟩
  | cons first rest =>
    refine ⟨first, ?_⟩
    by_cases alone : rest = []
    · subst alone
      exact ⟨[], neat first List.mem_cons_self, by simp [written, joinWith]⟩
    · refine ⟨joinWith ending.text rest ++ ending.text, neat first List.mem_cons_self, ?_⟩
      rw [written, joinCons _ _ alone]
      simp

theorem endingWritten (ending : LineEnding) : lineEnding (written ending rows) = ending := by
  obtain ⟨first, rest, here, same⟩ := writtenStarts neat ending
  rw [same, lineEnding]
  cases ending with
  | lf =>
    have other : first.getLast?.getD ' ' ≠ '\r' := by
      cases last : first.getLast? with
      | none => decide
      | some c =>
        rintro rfl
        exact here.other last
    exact (endingAfter here.within ' ' rest).trans (if_neg other)
  | crlf =>
    have within : '\n' ∉ first ++ ['\r'] := by simp [here.within]
    have found := endingAfter within ' ' rest
    rw [List.getLast?_concat, Option.getD_some, if_pos rfl] at found
    simpa [LineEnding.text] using found

omit neat in
theorem coreFilled (rows : List (List Char)) : EndsFilled (rows.rdropWhile List.isEmpty) := by
  intro row last blank
  have filled : rows.rdropWhile List.isEmpty ≠ [] := by
    intro none
    rw [none] at last
    cases last
  rw [List.getLast?_eq_some_getLast filled, Option.some_inj] at last
  have solid := List.rdropWhile_last_not List.isEmpty rows filled
  rw [last, blank] at solid
  exact solid rfl

omit neat in
theorem coreShort {limit : Option Nat} (short : Short limit 0 rows) :
    Short limit 0 (rows.rdropWhile List.isEmpty) := by
  obtain ⟨more, whole⟩ : rows.rdropWhile List.isEmpty <+: rows := List.rdropWhile_prefix _ rows
  rw [← whole] at short
  exact short.front

theorem coreNeat : ∀ row ∈ rows.rdropWhile List.isEmpty, Neat row :=
  fun row member => neat row ((List.rdropWhile_prefix _ rows).mem member)

theorem normalizeAgain {limit : Option Nat} (short : Short limit 0 rows) (ending : LineEnding) :
    normalize limit (written ending rows) =
      written ending (rows.rdropWhile List.isEmpty) := by
  have trimmed : (rows.rdropWhile List.isEmpty).map trimEnd = rows.rdropWhile List.isEmpty :=
    List.map_congr_left (fun row member => (coreNeat neat row member).trimmed) |>.trans
      (List.map_id _)
  rw [normalizeWritten, endingWritten neat, rowsOf, trimmedLines, dropWritten neat,
    linesJoin (coreNeat neat) ending (coreFilled rows), trimmed, (coreShort short).same]

end

def EndsOnce (text : List Char) : Prop :=
  ∃ body ending, text = body ++ LineEnding.text ending ∧
    ∀ c, body.getLast? = some c → isBreak c = false

theorem writtenOnce {rows : List (List Char)} (neat : ∀ row ∈ rows, Neat row)
    (ending : LineEnding) (last : EndsFilled rows) : EndsOnce (written ending rows) := by
  refine ⟨joinWith ending.text rows, ending, rfl, ?_⟩
  intro c ends
  have solid := joinSolid neat ending last c ends
  rw [Bool.eq_false_iff]
  intro lineBreak
  rw [breakWhite lineBreak] at solid
  cases solid

theorem blankLastTwice {rows : List (List Char)} (more : rows ≠ []) (ending : LineEnding) :
    ¬ EndsOnce (written ending (rows ++ [[]])) := by
  intro once
  obtain ⟨body, other, same, solid⟩ := once
  rw [written, joinLast _ more, List.append_nil] at same
  have backwards := congrArg List.reverse same
  rw [← List.head?_reverse] at solid
  -- Behind the last break of either kind stands the break in front of it.
  cases ending <;> cases other <;>
    simp only [LineEnding.text, List.reverse_append, List.reverse_cons, List.reverse_nil,
      List.nil_append, List.cons_append, List.cons.injEq, true_and] at backwards
  · rw [← backwards] at solid
    exact absurd (solid '\n' rfl) (by decide)
  · cases backwards.1
  · rw [← backwards] at solid
    exact absurd (solid '\r' rfl) (by decide)
  · rw [← backwards] at solid
    exact absurd (solid '\n' rfl) (by decide)

def Settled (rows : List (List Char)) : Prop := rows.getLast? = some [] → rows = [[]]

theorem settledCases (rows : List (List Char)) :
    EndsFilled rows ∨ rows = [[]] ∨ ∃ front, front ≠ [] ∧ rows = front ++ [[]] := by
  cases rows using List.reverseRecOn with
  | nil =>
    left
    intro row last
    cases last
  | append_singleton front row =>
    by_cases blank : row = []
    · subst blank
      by_cases alone : front = []
      · exact .inr (.inl (by rw [alone]; rfl))
      · exact .inr (.inr ⟨front, alone, rfl⟩)
    · exact .inl (filledConcat blank)

theorem filledCore {rows : List (List Char)} (last : EndsFilled rows) :
    rows.rdropWhile List.isEmpty = rows := by
  rw [List.rdropWhile_eq_self_iff]
  intro filled blank
  exact last _ (List.getLast?_eq_some_getLast filled) (List.isEmpty_iff.mp blank)

theorem writtenFinal {limit : Option Nat} {rows : List (List Char)}
    (neat : ∀ row ∈ rows, Neat row) (short : Short limit 0 rows) (ending : LineEnding) :
    (EndsOnce (written ending rows) ↔ Settled rows) ∧
      (normalize limit (written ending rows) = written ending rows ↔ Settled rows) := by
  have again := normalizeAgain neat short ending
  rcases settledCases rows with filled | rfl | ⟨front, more, rfl⟩
  · have settled : Settled rows := fun blank => absurd rfl (filled [] blank)
    rw [filledCore filled] at again
    exact ⟨iff_of_true (writtenOnce neat ending filled) settled, iff_of_true again settled⟩
  · have settled : Settled [[]] := fun _ => rfl
    exact ⟨iff_of_true ⟨[], ending, rfl, by simp⟩ settled, iff_of_true again settled⟩
  · have blankEnd : ¬ Settled (front ++ [[]]) := by
      intro settled
      have alone : front ++ [[]] = [] ++ [[]] := settled List.getLast?_concat
      exact more (List.append_cancel_right alone)
    have twice := blankLastTwice more ending
    refine ⟨iff_of_false twice blankEnd, iff_of_false ?_ blankEnd⟩
    intro same
    rw [again] at same
    rw [← same] at twice
    exact twice (writtenOnce (coreNeat neat) ending (coreFilled _))

/- Where the last line is blank it is the only line, or all lines are blank and one of them is
left. The line breaks that end the text end no line of their own. -/
def Tidy (limit : Option Nat) (text : List Char) : Prop :=
  (trimmedLines text).getLast? = some [] →
    trimmedLines text = [[]] ∨ limit = some 0 ∧ ∀ line ∈ trimmedLines text, line = []

theorem settledTidy (limit : Option Nat) (text : List Char) :
    Settled (rowsOf limit text) ↔ Tidy limit text := by
  by_cases last : (trimmedLines text).getLast? = some []
  · have filled : trimmedLines text ≠ [] := by
      intro none
      rw [none] at last
      cases last
    have blankEnd : (rowsOf limit text).getLast? = some [] := by
      obtain ⟨row, rest, same⟩ := List.exists_cons_of_ne_nil filled
      obtain ⟨other, found⟩ : ∃ other, (rowsOf limit text).getLast? = some other := by
        rw [rowsOf, same, shrinkStart, List.getLast?_cons]
        exact ⟨_, rfl⟩
      rw [found, shrinkBlank last other found]
    rw [Settled, Tidy, imp_iff_right blankEnd, imp_iff_right last]
    exact shrinkOne filled
  · have endsFilled : EndsFilled (trimmedLines text) := by
      rintro row same rfl
      exact last same
    have never : (rowsOf limit text).getLast? ≠ some [] := fun blank =>
      shrinkFilled endsFilled [] blank rfl
    exact iff_of_true (fun blank => absurd blank never) fun blank => absurd blank last

/- A tidied text ends with one line break, and is left as it is, exactly when no blank line is left
at its end. A text that is tidied twice is final. -/
theorem normalizeFinal (limit : Option Nat) (text : List Char) :
    (EndsOnce (normalize limit text) ↔ Tidy limit text) ∧
      (normalize limit (normalize limit text) = normalize limit text ↔ Tidy limit text) ∧
      EndsOnce (normalize limit (normalize limit text)) ∧
      normalize limit (normalize limit (normalize limit text)) =
        normalize limit (normalize limit text) := by
  have neat := rowsNeat limit text
  have short : Short limit 0 (rowsOf limit text) := .shrunk limit 0 (trimmedLines text)
  have final := writtenFinal neat short (lineEnding text)
  have again := normalizeAgain neat short (lineEnding text)
  rw [settledTidy, ← normalizeWritten] at final
  rw [← normalizeWritten] at again
  refine ⟨final.1, final.2, ?_, ?_⟩
  · rw [again]
    exact writtenOnce (coreNeat neat) _ (coreFilled _)
  · have shortToo : Short limit 0 ((rowsOf limit text).rdropWhile List.isEmpty) := coreShort short
    rw [again, normalizeAgain (coreNeat neat) shortToo, filledCore (coreFilled _)]

/- The white space on the last line goes only after the line breaks at the end have gone. -/
theorem blankLastLine :
    normalize (some 2) "a\n ".toList = "a\n\n".toList ∧
      ¬ EndsOnce (normalize (some 2) "a\n ".toList) ∧
      normalize (some 2) (normalize (some 2) "a\n ".toList) ≠ normalize (some 2) "a\n ".toList := by
  have once : normalize (some 2) "a\n ".toList = "a\n\n".toList := by decide +kernel
  refine ⟨once, ?_, ?_⟩
  · intro single
    rw [once] at single
    have filled : ["a".toList] ≠ [] := by simp
    exact blankLastTwice filled .lf single
  · rw [once]
    decide +kernel

end CommentStrip.Whitespace
