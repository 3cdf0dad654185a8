import CommentStrip.Proofs.Whitespace

/-! Tidying as one pass over the characters. What becomes of a character depends on the row that
it lies on, and for white space on what is ahead on that row; so a part of a text that begins and
ends with solid characters is tidied by itself. -/
namespace CommentStrip.Whitespace
open Unicode Text

/- The row that a place lies on: something stands in front of the place, or nothing does, and
`run` blank rows stand in front of the row. -/
inductive Row where
  | filled
  | blank (run : Nat)
  deriving DecidableEq, Repr

namespace Row

/- The break that ends the row. A blank row that is one too many has none. -/
def close (limit : Option Nat) (ending : LineEnding) : Row → List Char
  | .filled => ending.text
  | .blank run => if limit.all fun limit => decide (run ≤ limit) then ending.text else []

def next : Row → Row
  | .filled => .blank 0
  | .blank run => .blank (run + 1)

def behind (row : Row) (text : List Char) : Row := if text = [] then row else .filled

theorem filledBehind (text : List Char) : Row.filled.behind text = .filled := by
  unfold behind
  split <;> rfl

theorem closeBreaks (limit : Option Nat) (ending : LineEnding) (row : Row) :
    ∀ c ∈ row.close limit ending, isBreak c = true := by
  cases row with
  | filled => exact endingBreak ending
  | blank run =>
    rw [close]
    split
    · exact endingBreak ending
    · exact List.forall_mem_nil _

end Row

def blankAhead (text : List Char) : Bool := (text.takeWhile (· != '\n')).all isWhite

def tidyFrom (limit : Option Nat) (ending : LineEnding) (row : Row) : List Char → List Char
  | [] => row.close limit ending
  | c :: rest =>
    if isBreak c && rest.all isBreak then row.close limit ending
    else if c = '\n' then row.close limit ending ++ tidyFrom limit ending row.next rest
    else if isWhite c && blankAhead rest then tidyFrom limit ending row rest
    else c :: tidyFrom limit ending .filled rest

theorem blankAheadCons {c : Char} (other : c ≠ '\n') (rest : List Char) :
    blankAhead (c :: rest) = (isWhite c && blankAhead rest) := by
  rw [blankAhead, List.takeWhile_cons_of_pos (by simpa using other), List.all_cons, blankAhead]

theorem blankAheadFeed (rest : List Char) : blankAhead ('\n' :: rest) = true := rfl

theorem blankAheadAppend {front : List Char} (within : '\n' ∉ front) (rest : List Char) :
    blankAhead (front ++ rest) = (front.all isWhite && blankAhead rest) := by
  induction front with
  | nil => rfl
  | cons c front ih =>
    rw [List.mem_cons, not_or] at within
    rw [List.cons_append, blankAheadCons (Ne.symm within.1), ih within.2, List.all_cons,
      Bool.and_assoc]

theorem solidAhead {c : Char} (solid : isWhite c = false) (rest : List Char) :
    blankAhead (c :: rest) = false := by
  have other : c ≠ '\n' := by
    rintro rfl
    cases solid
  rw [blankAheadCons other, solid, Bool.false_and]

theorem aheadSolid (front : List Char) {c : Char} (solid : isWhite c = false)
    (rest : List Char) : blankAhead (front ++ c :: rest) = blankAhead (front ++ [c]) := by
  induction front with
  | nil => rw [List.nil_append, List.nil_append, solidAhead solid, solidAhead solid]
  | cons d front ih =>
    by_cases feed : d = '\n'
    · rw [feed]
      rfl
    · rw [List.cons_append, List.cons_append, blankAheadCons feed, blankAheadCons feed, ih]

theorem breaksAhead (front : List Char) {breaks : List Char}
    (each : ∀ c ∈ breaks, isBreak c = true) :
    blankAhead (front ++ breaks) = blankAhead front := by
  induction front with
  | nil =>
    rw [List.nil_append, blankAhead]
    refine (List.all_eq_true.mpr fun c inside => ?_).trans rfl
    exact breakWhite (each c ((List.takeWhile_prefix _).mem inside))
  | cons d front ih =>
    by_cases feed : d = '\n'
    · rw [feed]
      rfl
    · rw [List.cons_append, blankAheadCons feed, blankAheadCons feed, ih]

section
variable {limit : Option Nat} {ending : LineEnding} {row : Row}

theorem solidBreak {c : Char} (solid : isWhite c = false) : isBreak c = false := by
  rw [Bool.eq_false_iff]
  intro lineBreak
  rw [breakWhite lineBreak] at solid
  cases solid

theorem tidyKept {c : Char} {rest : List Char} (other : c ≠ '\n')
    (kept : isWhite c = true → blankAhead rest = false) :
    tidyFrom limit ending row (c :: rest) = c :: tidyFrom limit ending .filled rest := by
  have kept : (isWhite c && blankAhead rest) = false := by
    cases white : isWhite c with
    | false => rfl
    | true => rw [kept white, Bool.and_false]
  have inside : (isBreak c && rest.all isBreak) = false := by
    rw [Bool.eq_false_iff]
    intro breaks
    rw [Bool.and_eq_true, List.all_eq_true] at breaks
    have ahead := breaksAhead [] breaks.2
    rw [List.nil_append] at ahead
    rw [breakWhite breaks.1, ahead] at kept
    cases kept
  rw [tidyFrom, inside, if_neg Bool.false_ne_true, if_neg other, kept, if_neg Bool.false_ne_true]

theorem tidySolid {c : Char} (solid : isWhite c = false) (rest : List Char) :
    tidyFrom limit ending row (c :: rest) = c :: tidyFrom limit ending .filled rest := by
  refine tidyKept ?_ fun white => ?_
  · rintro rfl
    cases solid
  · rw [solid] at white
    cases white

theorem tidyEnd {text : List Char} (breaks : text.all isBreak = true) :
    tidyFrom limit ending row text = row.close limit ending := by
  cases text with
  | nil => rfl
  | cons c rest =>
    rw [List.all_cons] at breaks
    rw [tidyFrom, if_pos breaks]

theorem tidyDropped {c : Char} {rest : List Char} (other : c ≠ '\n') (white : isWhite c = true)
    (ahead : blankAhead rest = true) :
    tidyFrom limit ending row (c :: rest) = tidyFrom limit ending row rest := by
  rw [tidyFrom, if_neg other, white, ahead, Bool.and_self, if_pos rfl]
  split
  · rename_i breaks
    rw [Bool.and_eq_true] at breaks
    exact (tidyEnd breaks.2).symm
  · rfl

theorem tidyFeed {rest : List Char} (more : rest.all isBreak = false) :
    tidyFrom limit ending row ('\n' :: rest) =
      row.close limit ending ++ tidyFrom limit ending row.next rest := by
  rw [tidyFrom, more, Bool.and_false, if_neg Bool.false_ne_true, if_pos rfl]

theorem tidyReturnFeed (rest : List Char) :
    tidyFrom limit ending row ('\r' :: '\n' :: rest) = tidyFrom limit ending row ('\n' :: rest) :=
  tidyDropped (by decide) (by decide) (blankAheadFeed rest)

theorem tidyAhead {text : List Char} (ahead : blankAhead text = true) :
    ∃ later, tidyFrom limit ending row text = row.close limit ending ++ later := by
  induction text with
  | nil => exact ⟨[], (List.append_nil _).symm⟩
  | cons c rest ih =>
    by_cases feed : c = '\n'
    · subst feed
      cases breaks : rest.all isBreak with
      | true => exact ⟨[], by rw [tidyEnd (by simpa [isBreak] using breaks), List.append_nil]⟩
      | false => exact ⟨_, tidyFeed breaks⟩
    · rw [blankAheadCons feed, Bool.and_eq_true] at ahead
      rw [tidyDropped feed ahead.1 ahead.2]
      exact ih ahead.2

theorem tidyHead {text : List Char} (ahead : blankAhead text = false) :
    ∃ c rest, text = c :: rest ∧ c ≠ '\n' ∧
      tidyFrom limit ending row text = c :: tidyFrom limit ending .filled rest := by
  cases text with
  | nil => cases ahead
  | cons c rest =>
    have other : c ≠ '\n' := by
      rintro rfl
      cases ahead
    refine ⟨c, rest, rfl, other, tidyKept other fun white => ?_⟩
    rwa [blankAheadCons other, white, Bool.true_and] at ahead

theorem tidyBreak {text : List Char} (ahead : blankAhead text = true) {c : Char}
    (first : (tidyFrom limit ending .filled text).head? = some c) : isBreak c = true := by
  obtain ⟨later, same⟩ := @tidyAhead limit ending .filled text ahead
  rw [same] at first
  refine endingBreak ending c ?_
  cases ending <;> cases first <;> exact List.mem_cons_self

theorem tidyNext (text : List Char) :
    (tidyFrom limit ending .filled text).head? = text.head? ∨
      ∀ c, (tidyFrom limit ending .filled text).head? = some c → isBreak c = true := by
  cases ahead : blankAhead text with
  | true => exact .inr fun c first => tidyBreak ahead first
  | false =>
    obtain ⟨c, rest, rfl, -, same⟩ := @tidyHead limit ending .filled text ahead
    exact .inl (by rw [same]; rfl)

theorem tidyFirst {c : Char} (solid : isWhite c = false) (text : List Char) :
    (tidyFrom limit ending .filled text).head? = some c ↔ text.head? = some c := by
  constructor
  · intro first
    rcases @tidyNext limit ending text with same | breaks
    · exact same.symm.trans first
    · have lineBreak := breaks c first
      rw [solidBreak solid] at lineBreak
      cases lineBreak
  · intro first
    obtain ⟨rest, rfl⟩ := List.head?_eq_some_iff.mp first
    rw [tidySolid solid]
    rfl

theorem tidySolids {word : List Char} (solid : ∀ c ∈ word, isWhite c = false) (rest : List Char) :
    tidyFrom limit ending row (word ++ rest) =
      word ++ tidyFrom limit ending (row.behind word) rest := by
  induction word generalizing row with
  | nil => rfl
  | cons c word ih =>
    obtain ⟨here, later⟩ := List.forall_mem_cons.mp solid
    rw [List.cons_append, tidySolid here, ih later, Row.filledBehind]
    rfl

theorem tidyStarts {word : List Char} (solid : ∀ c ∈ word, isWhite c = false)
    (text : List Char) :
    startsWith word (tidyFrom limit ending .filled text) = startsWith word text := by
  induction word generalizing text with
  | nil => rfl
  | cons w word ih =>
    obtain ⟨here, later⟩ := List.forall_mem_cons.mp solid
    by_cases first : text.head? = some w
    · obtain ⟨rest, rfl⟩ := List.head?_eq_some_iff.mp first
      rw [tidySolid here]
      simpa [startsWith, after] using ih later rest
    · have never (other : List Char) (apart : other.head? ≠ some w) :
          startsWith (w :: word) other = false := by
        rw [Bool.eq_false_iff]
        intro starts
        obtain ⟨rest, rfl⟩ := startsWithIff.mp starts
        exact apart rfl
      rw [never text first, never _ (mt (tidyFirst here text).mp first)]

theorem tidyBehind (text : List Char) {breaks : List Char} (each : ∀ c ∈ breaks, isBreak c = true) :
    tidyFrom limit ending row (text ++ breaks) = tidyFrom limit ending row text := by
  induction text generalizing row with
  | nil => exact tidyEnd (List.all_eq_true.mpr each)
  | cons c text ih =>
    have same : (text ++ breaks).all isBreak = text.all isBreak := by
      rw [List.all_append, List.all_eq_true.mpr each, Bool.and_true]
    rw [List.cons_append, tidyFrom, tidyFrom, same, breaksAhead text each, ih, ih, ih]

theorem tidyRowEnd {front rest : List Char} (within : '\n' ∉ front)
    (ahead : blankAhead rest = true) :
    tidyFrom limit ending row (front ++ rest) =
      trimEnd front ++ tidyFrom limit ending (row.behind (trimEnd front)) rest := by
  induction front generalizing row with
  | nil => rfl
  | cons c front ih =>
    rw [List.mem_cons, not_or] at within
    have other := Ne.symm within.1
    have behind : blankAhead (front ++ rest) = front.all isWhite := by
      rw [blankAheadAppend within.2, ahead, Bool.and_true]
    rw [List.cons_append, trimEndCons]
    split
    · rename_i blank
      rw [trimEndNone] at blank
      rw [tidyDropped other blank.1 (by rw [behind, blank.2]), ih within.2, trimEndNone.mpr blank.2]
    · rename_i kept
      rw [trimEndNone] at kept
      rw [tidyKept other fun white => ?_, ih within.2, Row.filledBehind]
      · rfl
      · rw [behind, Bool.eq_false_iff]
        exact fun blank => kept ⟨white, blank⟩

theorem tidyRowFront {front rest : List Char} (within : '\n' ∉ front)
    (ahead : blankAhead rest = false) :
    tidyFrom limit ending row (front ++ rest) =
      front ++ tidyFrom limit ending (row.behind front) rest := by
  induction front generalizing row with
  | nil => rfl
  | cons c front ih =>
    rw [List.mem_cons, not_or] at within
    have behind : blankAhead (front ++ rest) = false := by
      rw [blankAheadAppend within.2, ahead, Bool.and_false]
    rw [List.cons_append, tidyKept (Ne.symm within.1) fun _ => behind, ih within.2,
      Row.filledBehind]
    rfl

theorem tidySplit (front : List Char) {c : Char} (solid : isWhite c = false) :
    ∃ tidied, (∀ d ∈ tidied, d ∈ front ∨ isBreak d = true) ∧ ∀ rest,
      tidyFrom limit ending row (front ++ c :: rest) =
        tidied ++ c :: tidyFrom limit ending .filled rest := by
  induction front generalizing row with
  | nil => exact ⟨[], List.forall_mem_nil _, fun rest => tidySolid solid rest⟩
  | cons d front ih =>
    have more (rest : List Char) : (front ++ c :: rest).all isBreak = false := by
      rw [List.all_append, List.all_cons, solidBreak solid, Bool.false_and, Bool.and_false]
    by_cases feed : d = '\n'
    · subst feed
      obtain ⟨tidied, known, same⟩ := @ih row.next
      refine ⟨row.close limit ending ++ tidied, ?_, fun rest => ?_⟩
      · intro e inside
        rcases List.mem_append.mp inside with close | later
        · exact .inr (row.closeBreaks limit ending e close)
        · exact (known e later).imp (List.mem_cons_of_mem _) id
      · rw [List.cons_append, tidyFeed (more rest), same, List.append_assoc]
    · have ahead (rest : List Char) := aheadSolid front solid rest
      by_cases gone : isWhite d = true ∧ blankAhead (front ++ [c]) = true
      · obtain ⟨tidied, known, same⟩ := @ih row
        refine ⟨tidied, fun e inside => (known e inside).imp (List.mem_cons_of_mem _) id,
          fun rest => ?_⟩
        rw [List.cons_append, tidyDropped feed gone.1 (by rw [ahead, gone.2]), same]
      · obtain ⟨tidied, known, same⟩ := @ih .filled
        refine ⟨d :: tidied, ?_, fun rest => ?_⟩
        · intro e inside
          rcases List.mem_cons.mp inside with rfl | later
          · exact .inl List.mem_cons_self
          · exact (known e later).imp (List.mem_cons_of_mem _) id
        · rw [List.cons_append, tidyKept feed fun white => ?_, same]
          · rfl
          · rw [ahead, Bool.eq_false_iff]
            exact fun blank => gone ⟨white, blank⟩

theorem shrinkWritten (limit : Option Nat) (ending : LineEnding) (run : Nat) (line : List Char)
    (rows : List (List Char)) :
    ∃ behind, ((Row.blank run).behind line).next = .blank behind ∧
      (shrinkRuns limit run (line :: rows)).flatMap (· ++ ending.text) =
        line ++ (((Row.blank run).behind line).close limit ending ++
          (shrinkRuns limit behind rows).flatMap (· ++ ending.text)) := by
  by_cases blank : line = []
  · subst blank
    refine ⟨run + 1, rfl, ?_⟩
    simp only [shrinkRuns, List.isEmpty_nil, if_true, Row.behind, Row.close, List.nil_append]
    split <;> simp
  · refine ⟨0, by rw [Row.behind, if_neg blank]; rfl, ?_⟩
    simp [shrinkRuns, blank, Row.behind, Row.close]

theorem joinWritten {rows : List (List Char)} (filled : rows ≠ []) :
    joinWith ending.text rows ++ ending.text = rows.flatMap (· ++ ending.text) := by
  induction rows with
  | nil => exact absurd rfl filled
  | cons row rest ih =>
    by_cases more : rest = []
    · simp [more, joinWith]
    · rw [joinCons _ _ more, List.flatMap_cons, ← ih more]
      simp

theorem lastBreak {text : List Char} (filled : text ≠ [])
    (last : ∀ c, text.getLast? = some c → isBreak c = false) : text.all isBreak = false := by
  rw [Bool.eq_false_iff, Ne, List.all_eq_true]
  intro breaks
  have solid := last _ (List.getLast?_eq_some_getLast filled)
  rw [breaks _ (List.getLast_mem filled)] at solid
  cases solid

theorem tidyRows {text : List Char} (filled : text ≠ [])
    (last : ∀ c, text.getLast? = some c → isBreak c = false) (run : Nat) :
    tidyFrom limit ending (.blank run) text =
      (shrinkRuns limit run ((lines text).map trimEnd)).flatMap (· ++ ending.text) := by
  induction text using lineInduction generalizing run with
  | empty => exact absurd rfl filled
  | @line body terminator rest cut some ih =>
    rw [cut.first some, List.map_cons]
    obtain ⟨behind, next, written⟩ := shrinkWritten limit ending run (trimEnd body)
      ((lines rest).map trimEnd)
    rw [written]
    have onward (front : List Char) (within : '\n' ∉ front) (same : trimEnd front = trimEnd body)
        (text : body ++ terminator ++ rest = front ++ '\n' :: rest) :
        tidyFrom limit ending (.blank run) (body ++ terminator ++ rest) =
          trimEnd body ++ (((Row.blank run).behind (trimEnd body)).close limit ending ++
            (shrinkRuns limit behind ((lines rest).map trimEnd)).flatMap (· ++ ending.text)) := by
      rw [text] at last ⊢
      have more : rest ≠ [] := by
        rintro rfl
        exact absurd (last '\n' List.getLast?_concat) (by decide)
      have lastToo : ∀ c, rest.getLast? = Option.some c → isBreak c = false := by
        intro c ends
        refine last c ?_
        rw [List.getLast?_append, List.getLast?_cons, ends]
        rfl
      rw [tidyRowEnd within (blankAheadFeed rest), same, tidyFeed (lastBreak more lastToo), next,
        ih more lastToo]
    rcases cut.ends with ⟨rfl, rfl⟩ | ⟨rfl, -⟩ | rfl
    · rw [List.append_assoc, tidyRowEnd cut.within rfl]
      simp [tidyFrom, lines, linesInclusive, shrinkRuns]
    · exact onward body cut.within rfl (by simp)
    · have blank : ∀ c ∈ ['\r'], isWhite c = true := List.forall_mem_singleton.mpr (by decide)
      refine onward (body ++ ['\r']) ?_ (dropEndBehind body blank) (by simp)
      simp [cut.within]

theorem rowsFilled {text : List Char} (filled : text ≠ []) :
    shrinkRuns limit 0 ((lines text).map trimEnd) ≠ [] := by
  have some : lines text ≠ [] := by
    intro none
    have whole := linesInclusiveFlatten text
    rw [lines, List.map_eq_nil_iff] at none
    rw [none] at whole
    exact filled whole.symm
  obtain ⟨line, rest, same⟩ := List.exists_cons_of_ne_nil some
  rw [same, List.map_cons, shrinkStart]
  exact List.cons_ne_nil _ _

theorem normalizePass (limit : Option Nat) (text : List Char) :
    normalize limit text = tidyFrom limit (lineEnding text) (.blank 0) text := by
  obtain ⟨breaks, whole, each⟩ := dropEndSplit isBreak text
  have same := (congrArg (tidyFrom limit (lineEnding text) (.blank 0)) whole).trans
    (tidyBehind _ each)
  rw [normalize, same]
  by_cases none : dropEndWhile isBreak text = []
  · rw [none]
    cases limit <;> simp [lines, linesInclusive, shrinkRuns, joinWith, tidyFrom, Row.close]
  · rw [tidyRows none fun c => dropEndLast, ← joinWritten (rowsFilled none)]

def tidied (limit : Option Nat) (ending : LineEnding) (text : List Char) : List Char :=
  joinWith ending.text (shrinkRuns limit 0 ((lines text).map trimEnd))

structure Solid (text : List Char) : Prop where
  filled : text ≠ []
  first : ∀ c, text.head? = some c → isWhite c = false
  last : ∀ c, text.getLast? = some c → isWhite c = false

theorem tidyPart {text : List Char} (solid : Solid text) (row : Row) (rest : List Char) :
    tidyFrom limit ending row (text ++ rest) =
      tidied limit ending text ++ tidyFrom limit ending .filled rest := by
  obtain ⟨front, c, same⟩ := List.eq_nil_or_concat' text |>.resolve_left solid.filled
  have ends : isWhite c = false := solid.last c (by simp [same])
  obtain ⟨before, -, split⟩ := @tidySplit limit ending row front c ends
  have rows : tidyFrom limit ending row text = tidied limit ending text ++ ending.text := by
    rw [tidied, joinWritten (rowsFilled solid.filled),
      ← tidyRows solid.filled (fun c last => solidBreak (solid.last c last))]
    obtain ⟨d, more, begins⟩ := List.exists_cons_of_ne_nil solid.filled
    have begun : isWhite d = false := solid.first d (by simp [begins])
    rw [begins, tidySolid begun, tidySolid begun]
  have alone := split []
  rw [← same, rows, tidyFrom, Row.close, ← List.singleton_append, ← List.append_assoc] at alone
  rw [List.append_cancel_right alone, same, List.append_assoc, List.singleton_append, split]
  simp

/- Rows as tidying leaves them: no white space at their ends, line breaks of one kind, and no more
blank rows together than the limit allows. -/
def Groomed (limit : Option Nat) (ending : LineEnding) (text : List Char) : Prop :=
  ∃ rows, text = joinWith ending.text rows ∧ (∀ row ∈ rows, Neat row) ∧ Short limit 0 rows

theorem tidiedSame {text : List Char} (solid : Solid text) :
    tidied limit ending text = text ↔ Groomed limit ending text := by
  constructor
  · intro same
    refine ⟨_, same.symm, fun row member => ?_, .shrunk limit 0 _⟩
    obtain ⟨line, found, rfl⟩ := List.mem_map.mp (shrinkMember row member)
    refine ⟨fun feed => ?_, fun c => trimEndLast⟩
    exact linesWithin _ line found ((dropEndWhilePrefix _ line).mem feed)
  · rintro ⟨rows, rfl, neat, short⟩
    have last : EndsFilled rows := by
      rintro row ends rfl
      obtain ⟨front, rfl⟩ := List.getLast?_eq_some_iff.mp ends
      by_cases alone : front = []
      · exact solid.filled (by rw [alone]; rfl)
      · have lastBreak := solid.last '\n' (by
          rw [joinLast _ alone, List.append_nil]
          cases ending <;> simp [LineEnding.text])
        cases lastBreak
    have trimmed : rows.map trimEnd = rows :=
      (List.map_congr_left fun row member => (neat row member).trimmed).trans (List.map_id rows)
    rw [tidied, linesJoin neat ending last, trimmed, short.same]

end

end CommentStrip.Whitespace
