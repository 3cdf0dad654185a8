import CommentStrip.Proofs.TidyPass

/-! What tidying does to the lines of a text, told by the lines of both texts: the filled lines
stay in their order without the white space at their ends, the runs of blank lines between them
shrink to the limit, and all lines end in one way. -/
namespace CommentStrip.Whitespace
open Unicode Text

def filledRows (rows : List (List Char)) : List (List Char) := rows.filter fun row => !row.isEmpty

def allowed : Option Nat → Nat → Nat
  | none, n => n
  | some limit, n => min n (limit + 1)

/- The first line feed of the text, if it has one, has a carriage return in front of it. -/
def FirstBreakPaired (text : List Char) : Prop :=
  ∃ front back, text = front ++ '\n' :: back ∧ '\n' ∉ front ∧ front.getLast? = some '\r'

structure TidiedFrom (limit : Option Nat) (text out : List Char) : Prop where
  trimmed : ∀ line ∈ lines out, trimEnd line = line
  filled : filledRows (lines out) = filledRows ((lines text).map trimEnd)
  /-- No run of blank lines is longer than the limit and one. -/
  short : ∀ most, limit = some most → ∀ front n back,
    lines out = front ++ (List.replicate n [] ++ back) → n ≤ most + 1
  /-- Blank lines between two filled ones, which the filled lines on both sides tell apart from the
  other runs. -/
  runs : ∀ front first n second back, first ≠ [] → second ≠ [] →
    (lines text).map trimEnd = front ++ first :: (List.replicate n [] ++ second :: back) →
    ∃ front' back', lines out =
        front' ++ first :: (List.replicate (allowed limit n) [] ++ second :: back') ∧
      filledRows front' = filledRows front ∧ filledRows back' = filledRows back
  breaks : ∀ front back, out = front ++ '\n' :: back →
    (front.getLast? = some '\r' ↔ FirstBreakPaired text)

theorem filledAppend (a b : List (List Char)) :
    filledRows (a ++ b) = filledRows a ++ filledRows b := List.filter_append a b

theorem filledBlank (n : Nat) : filledRows (List.replicate n []) = [] := by
  simp [filledRows]

theorem filledShrink (limit : Option Nat) (run : Nat) (rows : List (List Char)) :
    filledRows (shrinkRuns limit run rows) = filledRows rows := by
  fun_induction shrinkRuns limit run rows with
  | case1 => rfl
  | case2 run row rest blank room ih => simpa [filledRows, blank] using ih
  | case3 run row rest blank full ih => simpa [filledRows, blank] using ih
  | case4 run row rest filled ih => simpa [filledRows, filled] using ih

section
variable {limit : Option Nat}

theorem allowedRoom {run : Nat} (room : limit.all (fun limit => decide (run ≤ limit)) = true)
    (n : Nat) : allowed limit (run + (n + 1)) - allowed limit run =
      allowed limit (run + 1 + n) - allowed limit (run + 1) + 1 := by
  cases limit with
  | none =>
    simp only [allowed]
    omega
  | some limit =>
    simp only [Option.all_some, decide_eq_true_eq] at room
    simp only [allowed]
    omega

theorem allowedFull {run : Nat} (full : ¬ limit.all (fun limit => decide (run ≤ limit)) = true)
    (n : Nat) : allowed limit (run + (n + 1)) - allowed limit run =
      allowed limit (run + 1 + n) - allowed limit (run + 1) := by
  cases limit with
  | none => exact absurd rfl full
  | some limit =>
    simp only [Option.all_some, decide_eq_true_eq] at full
    simp only [allowed]
    omega

theorem shrinkBlanks (run n : Nat) {row : List Char} (filled : row ≠ [])
    (back : List (List Char)) :
    shrinkRuns limit run (List.replicate n [] ++ row :: back) =
      List.replicate (allowed limit (run + n) - allowed limit run) [] ++
        row :: shrinkRuns limit 0 back := by
  induction n generalizing run with
  | zero => simp [shrinkRuns, filled]
  | succ n ih =>
    rw [List.replicate_succ, List.cons_append, shrinkRuns, if_pos List.isEmpty_nil, ih]
    split
    · rename_i room
      rw [allowedRoom room, List.replicate_succ, List.cons_append]
    · rename_i full
      rw [allowedFull full]

theorem shrinkBetween {front back : List (List Char)} {first second : List Char} {n : Nat}
    (firstFilled : first ≠ []) (secondFilled : second ≠ []) :
    shrinkRuns limit 0 (front ++ first :: (List.replicate n [] ++ second :: back)) =
      shrinkRuns limit 0 front ++
        first :: (List.replicate (allowed limit n) [] ++ second :: shrinkRuns limit 0 back) := by
  have none : allowed limit 0 = 0 := by cases limit <;> simp [allowed]
  rw [shrinkAcross front firstFilled, shrinkBlanks 0 n secondFilled, none, Nat.zero_add,
    Nat.sub_zero]

theorem Short.behind {run : Nat} {front rows : List (List Char)}
    (short : Short limit run (front ++ rows)) : ∃ later, Short limit later rows := by
  induction front generalizing run with
  | nil => exact ⟨run, short⟩
  | cons row front ih =>
    cases short with
    | blank room later => exact ih later
    | line filled later => exact ih later

theorem Short.blanks {most run n : Nat} {back : List (List Char)}
    (short : Short (some most) run (List.replicate n [] ++ back)) : n = 0 ∨ run + n ≤ most + 1 := by
  induction n generalizing run with
  | zero => exact .inl rfl
  | succ n ih =>
    rw [List.replicate_succ, List.cons_append] at short
    cases short with
    | blank room later =>
      have first : run ≤ most := by simpa using room
      have rest := ih later
      omega
    | line filled later => exact absurd rfl filled

end

theorem feedSplit {ahead behind front back : List Char} (within : '\n' ∉ ahead)
    (split : ahead ++ '\n' :: behind = front ++ '\n' :: back) :
    front = ahead ∨ ∃ more, front = ahead ++ '\n' :: more ∧ behind = more ++ '\n' :: back := by
  rcases List.append_eq_append_iff.mp split with ⟨more, rfl, rest⟩ | ⟨more, rfl, rest⟩
  · cases more with
    | nil => exact .inl (List.append_nil ahead)
    | cons c more =>
      obtain ⟨rfl, rfl⟩ := List.cons.inj rest
      exact .inr ⟨more, rfl, rfl⟩
  · cases more with
    | nil => exact .inl (List.append_nil front).symm
    | cons c more =>
      obtain ⟨rfl, -⟩ := List.cons.inj rest
      exact absurd (by simp) within

theorem neatFeed {row : List Char} (neat : Neat row) (ending : LineEnding) :
    ∃ ahead, row ++ ending.text = ahead ++ ['\n'] ∧ '\n' ∉ ahead ∧
      (ahead.getLast? = some '\r' ↔ ending = .crlf) := by
  cases ending with
  | lf => exact ⟨row, rfl, neat.within, iff_of_false neat.other (by simp)⟩
  | crlf =>
    refine ⟨row ++ ['\r'], by simp [LineEnding.text], by simp [neat.within], ?_⟩
    exact iff_of_true List.getLast?_concat rfl

section
variable {rows : List (List Char)} (neat : ∀ row ∈ rows, Neat row) (ending : LineEnding)
include neat

theorem linesFlat : lines (rows.flatMap (· ++ ending.text)) = rows := by
  induction rows with
  | nil => rfl
  | cons row rest ih =>
    obtain ⟨here, behind⟩ := List.forall_mem_cons.mp neat
    rw [List.flatMap_cons, here.first, ih behind]

theorem feedFlat {front back : List Char}
    (split : rows.flatMap (· ++ ending.text) = front ++ '\n' :: back) :
    front.getLast? = some '\r' ↔ ending = .crlf := by
  induction rows generalizing front with
  | nil => simp at split
  | cons row rest ih =>
    obtain ⟨here, behind⟩ := List.forall_mem_cons.mp neat
    obtain ⟨ahead, same, within, last⟩ := neatFeed here ending
    rw [List.flatMap_cons, same, List.append_assoc, List.singleton_append] at split
    rcases feedSplit within split with rfl | ⟨more, rfl, later⟩
    · exact last
    · rw [← ih behind later, List.getLast?_append, List.getLast?_cons]
      cases more.getLast? <;> simp

end

theorem endingNone {text : List Char} (none : '\n' ∉ text) (previous : Char) :
    lineEndingAfter previous text = .lf := by
  induction text generalizing previous with
  | nil => rfl
  | cons c rest ih =>
    rw [List.mem_cons, not_or] at none
    rw [lineEndingAfter, if_neg (Ne.symm none.1), ih none.2]

theorem endingPaired (text : List Char) : lineEnding text = .crlf ↔ FirstBreakPaired text := by
  by_cases some : '\n' ∈ text
  · obtain ⟨front, back, rfl, within⟩ := List.eq_append_cons_of_mem some
    rw [lineEnding, endingAfter within]
    constructor
    · intro paired
      refine ⟨front, back, rfl, within, ?_⟩
      cases last : front.getLast? with
      | none => simp [last] at paired
      | some c =>
        simp only [last, Option.getD_some, ite_eq_left_iff, reduceCtorEq, imp_false,
          not_not] at paired
        rw [paired]
    · rintro ⟨other, rest, same, withinToo, last⟩
      rcases feedSplit within same with rfl | ⟨more, rfl, -⟩
      · rw [last]
        rfl
      · simp at withinToo
  · refine iff_of_false ?_ ?_
    · rw [lineEnding, endingNone some]
      simp
    · rintro ⟨front, back, rfl, -⟩
      simp at some

theorem lastLineBreak {line : List Char} (within : '\n' ∉ line) {c : Char}
    (lineBreak : isBreak c = true) : (lines (line ++ [c])).map trimEnd = [trimEnd line] := by
  have blank : ∀ d ∈ ['\r'], isWhite d = true := List.forall_mem_singleton.mpr (by decide)
  simp only [isBreak, Bool.or_eq_true, beq_iff_eq] at lineBreak
  rcases lineBreak with rfl | rfl
  · by_cases both : line.getLast? = some '\r'
    · obtain ⟨body, rfl⟩ := List.getLast?_eq_some_iff.mp both
      have cut : LineCut body ['\r', '\n'] [] := ⟨by simpa using within, .inr (.inr rfl)⟩
      have split := cut.first (by simp)
      rw [List.append_nil] at split
      rw [List.append_assoc]
      exact (congrArg (List.map trimEnd) split).trans
        (congrArg (fun trimmed => [trimmed]) (dropEndBehind body blank).symm)
    · have cut : LineCut line ['\n'] [] := ⟨within, .inr (.inl ⟨rfl, both⟩)⟩
      have split := cut.first (by simp)
      rw [List.append_nil] at split
      rw [split]
      rfl
  · have cut : LineCut (line ++ ['\r']) [] [] := ⟨by simpa using within, .inl ⟨rfl, rfl⟩⟩
    have split := cut.first (by simp)
    rw [List.append_nil, List.append_nil] at split
    rw [split, List.map_cons, trimEnd, dropEndBehind line blank]
    rfl

theorem linesBreak (text : List Char) {c : Char} (lineBreak : isBreak c = true) :
    ∃ k, (lines (text ++ [c])).map trimEnd = (lines text).map trimEnd ++ List.replicate k [] := by
  induction text using lineInduction with
  | empty => exact ⟨1, lastLineBreak (by simp) lineBreak⟩
  | @line body terminator rest cut filled ih =>
    by_cases unended : terminator = []
    · obtain ⟨-, rfl⟩ : terminator = [] ∧ rest = [] := by
        simpa [unended] using cut.ends
      subst unended
      have alone := cut.first filled
      simp only [List.append_nil] at alone ⊢
      exact ⟨0, by rw [lastLineBreak cut.within lineBreak, alone]; rfl⟩
    · obtain ⟨k, same⟩ := ih
      have more : LineCut body terminator (rest ++ [c]) :=
        ⟨cut.within, .inr (cut.ends.resolve_left fun ends => unended ends.1)⟩
      refine ⟨k, ?_⟩
      rw [List.append_assoc, more.first filled, cut.first filled, List.map_cons, same]
      rfl

theorem linesBreaks (text : List Char) {breaks : List Char}
    (each : ∀ c ∈ breaks, isBreak c = true) :
    ∃ k, (lines (text ++ breaks)).map trimEnd =
      (lines text).map trimEnd ++ List.replicate k [] := by
  induction breaks generalizing text with
  | nil => exact ⟨0, by simp⟩
  | cons c breaks ih =>
    obtain ⟨here, behind⟩ := List.forall_mem_cons.mp each
    obtain ⟨one, first⟩ := linesBreak text here
    obtain ⟨k, later⟩ := ih (text ++ [c]) behind
    refine ⟨one + k, ?_⟩
    rw [← List.singleton_append, ← List.append_assoc, later, first, List.append_assoc,
      List.replicate_append_replicate]

theorem linesTrimmed (text : List Char) :
    ∃ k, (lines text).map trimEnd = trimmedLines text ++ List.replicate k [] := by
  obtain ⟨breaks, whole, each⟩ := dropEndSplit isBreak text
  have lined := linesBreaks (dropEndWhile isBreak text) each
  rwa [← whole] at lined

theorem filledInFront {rows front back : List (List Char)} {row : List Char} (filled : row ≠ [])
    {k : Nat} (split : rows ++ List.replicate k [] = front ++ row :: back) :
    ∃ behind, rows = front ++ row :: behind ∧ filledRows behind = filledRows back := by
  rcases List.append_eq_append_iff.mp split with ⟨more, -, rest⟩ | ⟨more, rfl, rest⟩
  · have inside : row ∈ List.replicate k [] := by simp [rest]
    exact absurd (List.eq_of_mem_replicate inside) filled
  · cases more with
    | nil =>
      have inside : row ∈ List.replicate k [] := by
        rw [← List.nil_append (List.replicate k []), ← rest]
        exact List.mem_cons_self
      exact absurd (List.eq_of_mem_replicate inside) filled
    | cons other more =>
      obtain rfl : row = other := (List.cons.inj rest).1
      have later : back = more ++ List.replicate k [] := (List.cons.inj rest).2
      exact ⟨more, rfl, by rw [later, filledAppend, filledBlank, List.append_nil]⟩

theorem normalizeFlat (limit : Option Nat) (text : List Char) :
    ∃ rows, normalize limit text = rows.flatMap (· ++ (lineEnding text).text) ∧
      (∀ row ∈ rows, Neat row) ∧ Short limit 0 rows ∧
      filledRows rows = filledRows (trimmedLines text) ∧
      (rowsOf limit text ≠ [] → rows = rowsOf limit text) := by
  have filled : filledRows (rowsOf limit text) = filledRows (trimmedLines text) := filledShrink limit 0 _
  by_cases none : rowsOf limit text = []
  · refine ⟨[[]], ?_, ?_, ?_, ?_, absurd none⟩
    · rw [normalizeWritten, none]
      simp [written, joinWith]
    · exact List.forall_mem_singleton.mpr ⟨by simp, by simp⟩
    · exact .blank (by cases limit <;> simp) .nil
    · rw [← filled, none]
      rfl
  · refine ⟨rowsOf limit text, ?_, rowsNeat limit text, .shrunk limit 0 _, filled, fun _ => rfl⟩
    rw [normalizeWritten, written, joinWritten none]

/- Tidying takes white space from the ends of lines and blank lines from long runs of them, makes
all line breaks alike, and does nothing else to the lines. -/
theorem normalizeTidies (limit : Option Nat) (text : List Char) :
    TidiedFrom limit text (normalize limit text) := by
  obtain ⟨rows, flat, neat, short, filled, whole⟩ := normalizeFlat limit text
  obtain ⟨k, lined⟩ := linesTrimmed text
  have read : lines (normalize limit text) = rows := by rw [flat, linesFlat neat]
  constructor
  · intro line member
    rw [read] at member
    exact (neat line member).trimmed
  · rw [read, filled, lined, filledAppend, filledBlank, List.append_nil]
  · rintro most rfl front n back split
    rw [read] at split
    rw [split] at short
    obtain ⟨run, behind⟩ := short.behind
    have bound := behind.blanks
    omega
  · intro front first n second back firstFilled secondFilled split
    have split : trimmedLines text ++ List.replicate k [] =
        (front ++ first :: List.replicate n []) ++ second :: back := by
      rw [← lined, split, List.append_assoc, List.cons_append]
    obtain ⟨behind, same, alike⟩ := filledInFront secondFilled split
    have shrunk : rowsOf limit text = shrinkRuns limit 0 front ++
        first :: (List.replicate (allowed limit n) [] ++ second :: shrinkRuns limit 0 behind) := by
      rw [rowsOf, same, List.append_assoc, List.cons_append, shrinkBetween firstFilled secondFilled]
    refine ⟨_, _, ?_, filledShrink limit 0 front, (filledShrink limit 0 behind).trans alike⟩
    rw [read, whole (by simp [shrunk]), shrunk]
  · intro front back split
    rw [flat] at split
    rw [feedFlat neat _ split, endingPaired]

theorem normalizeTidiesMixed :
    (lines "a \r\n\t\n\r\nb".toList).map trimEnd =
        [] ++ ['a'] :: (List.replicate 2 [] ++ ['b'] :: []) ∧
      ∃ front back, lines (normalize (some 0) "a \r\n\t\n\r\nb".toList) =
          front ++ ['a'] :: (List.replicate 1 [] ++ ['b'] :: back) ∧
        filledRows front = [] ∧ filledRows back = [] := by
  have lined : (lines "a \r\n\t\n\r\nb".toList).map trimEnd =
      [] ++ ['a'] :: (List.replicate 2 [] ++ ['b'] :: []) := by decide
  have tidied := normalizeTidies (some 0) "a \r\n\t\n\r\nb".toList
  exact ⟨lined, tidied.runs [] ['a'] 2 ['b'] [] (by simp) (by simp) lined⟩

end CommentStrip.Whitespace
