import CommentStrip.Proofs.Glob.Reading
import CommentStrip.Proofs.Pattern.Reach
import Mathlib.Data.List.TakeWhile

/-! Which paths a glob covers: its parts take the whole of the path, or all that follows one of
the slashes where the glob begins with any directories. -/
namespace CommentStrip.Glob
open Pattern (Between Times CharSet)

inductive Fits : List Part → List Char → Prop
  | nil : Fits [] []
  | one {set c parts text} (holds : CharSet.mem set c = true) (later : Fits parts text) :
      Fits (.one set :: parts) (c :: text)
  | star {front parts text} (line : '\n' ∉ front) (later : Fits parts text) :
      Fits (.star :: parts) (front ++ text)

def Covers (anywhere : Bool) (parts : List Part) (text : List Char) : Prop :=
  Fits parts text ∨ anywhere = true ∧
    ∃ front rest, text = front ++ '/' :: rest ∧ '\n' ∉ front ∧ Fits parts rest

variable {text : List Char} {parts : List Part} {i j : Nat}

theorem noFeedHolds (c : Char) : noFeed.mem c = true ↔ c ≠ '\n' := by
  simp [noFeed, CharSet.mem, ← CharSet.memSingle]

theorem dropFurther (inside : i ≤ text.length) (front : List Char) {later : List Char}
    (whole : text.drop i = front ++ later) :
    later = text.drop (i + front.length) ∧ i + front.length ≤ text.length := by
  constructor
  · rw [← List.drop_drop, whole, List.drop_left]
  · have present := congrArg List.length whole
    rw [List.length_drop, List.length_append] at present
    omega

theorem betweenChar {set : CharSet} : Between text (.char set) i j ↔
    ∃ c, text.drop i = c :: text.drop j ∧ j = i + 1 ∧ set.mem c = true := by
  constructor
  · intro between
    cases between with
    | char there holds =>
      obtain ⟨inside, same⟩ := List.getElem?_eq_some_iff.mp there
      exact ⟨_, by rw [List.drop_eq_getElem_cons inside, same], rfl, holds⟩
  · rintro ⟨c, whole, rfl, holds⟩
    refine .char ?_ holds
    rw [← List.head?_drop, whole]
    rfl

theorem timesNoFeed {n : Nat} : Times text (.char noFeed) n i j ↔ i ≤ text.length ∧
    ∃ front, text.drop i = front ++ text.drop j ∧ j = i + front.length ∧ front.length = n ∧
      '\n' ∉ front := by
  induction n generalizing i with
  | zero =>
    constructor
    · rintro ⟨rfl, inside⟩
      exact ⟨inside, [], rfl, rfl, rfl, List.not_mem_nil⟩
    · rintro ⟨inside, front, -, rfl, none, -⟩
      exact ⟨by rw [none, Nat.add_zero], inside⟩
  | succ n ih =>
    simp only [Times, betweenChar, ih, noFeedHolds]
    constructor
    · rintro ⟨_, ⟨c, here, rfl, other⟩, inside, front, later, rfl, rfl, line⟩
      refine ⟨Nat.le_of_succ_le inside, c :: front, ?_, ?_, rfl, ?_⟩
      · rw [here, later, List.cons_append]
      · rw [List.length_cons]
        omega
      · exact fun listed => (List.mem_cons.mp listed).elim (fun same => other same.symm) line
    · rintro ⟨inside, front, whole, rfl, count, line⟩
      cases front with
      | nil => cases count
      | cons c front =>
        obtain ⟨behind, further⟩ : front ++ text.drop (i + (c :: front).length) =
            text.drop (i + 1) ∧ i + 1 ≤ text.length := dropFurther inside [c] whole
        obtain ⟨other, line⟩ := not_or.mp (mt List.mem_cons.mpr line)
        refine ⟨i + 1, ⟨c, ?_, rfl, Ne.symm other⟩, further, front, behind.symm, ?_,
          Nat.succ.inj count, line⟩
        · rw [whole, ← behind, List.cons_append]
        · rw [List.length_cons]
          omega

theorem betweenStar : Between text Part.star.pattern i j ↔ i ≤ text.length ∧
    ∃ front, text.drop i = front ++ text.drop j ∧ j = i + front.length ∧ '\n' ∉ front := by
  rw [Part.pattern, Pattern.repIff]
  simp only [timesNoFeed]
  constructor
  · rintro ⟨n, -, -, inside, front, whole, far, -, line⟩
    exact ⟨inside, front, whole, far, line⟩
  · rintro ⟨inside, front, whole, far, line⟩
    exact ⟨front.length, Nat.zero_le _, nofun, inside, front, whole, far, rfl, line⟩

theorem betweenSeq {p q : Pattern} {k : Nat} :
    Between text (.seq p q) i k ↔ ∃ j, Between text p i j ∧ Between text q j k := by
  constructor
  · intro between
    cases between with
    | seq first second => exact ⟨_, first, second⟩
  · rintro ⟨j, first, second⟩
    exact .seq first second

theorem betweenEmpty : Between text .empty i j ↔ i = j ∧ i ≤ text.length := by
  constructor
  · intro between
    cases between with
    | empty inside => exact ⟨rfl, inside⟩
  · rintro ⟨rfl, inside⟩
    exact .empty inside

theorem betweenLook {condition : Pattern.Look} : Between text (.look condition) i j ↔
    i = j ∧ i ≤ text.length ∧
      condition.holds (Pattern.charBefore text i) text[i]? = true := by
  constructor
  · intro between
    cases between with
    | look inside holds => exact ⟨rfl, inside, holds⟩
  · rintro ⟨rfl, inside, holds⟩
    exact .look inside holds

theorem betweenEnd : Between text (Pattern.inOrder [.look .textEnd]) i j ↔
    i = j ∧ i = text.length := by
  simp only [Pattern.inOrder, List.foldr_cons, List.foldr_nil, betweenSeq, betweenLook,
    betweenEmpty, Pattern.Look.holds, Option.isNone_iff_eq_none, List.getElem?_eq_none_iff]
  constructor
  · rintro ⟨_, ⟨rfl, inside, beyond⟩, rfl, -⟩
    exact ⟨rfl, Nat.le_antisymm inside beyond⟩
  · rintro ⟨rfl, rfl⟩
    exact ⟨_, ⟨rfl, Nat.le_refl _, Nat.le_refl _⟩, rfl, Nat.le_refl _⟩

theorem betweenParts : Between text
      (Pattern.inOrder (parts.map Part.pattern ++ [.look .textEnd])) i j ↔
    i ≤ text.length ∧ j = text.length ∧ Fits parts (text.drop i) := by
  induction parts generalizing i with
  | nil =>
    rw [List.map_nil, List.nil_append, betweenEnd]
    constructor
    · rintro ⟨rfl, rfl⟩
      exact ⟨Nat.le_refl _, rfl, by rw [List.drop_length]; exact .nil⟩
    · rintro ⟨inside, rfl, fits⟩
      generalize rest : text.drop i = left at fits
      cases fits
      have beyond := List.drop_eq_nil_iff.mp rest
      have same := Nat.le_antisymm inside beyond
      exact ⟨same, same⟩
  | cons part parts ih =>
    rw [List.map_cons, List.cons_append, Pattern.inOrder, List.foldr_cons, ← Pattern.inOrder,
      betweenSeq]
    cases part with
    | star =>
      simp only [betweenStar, ih]
      constructor
      · rintro ⟨k, ⟨inside, front, whole, -, line⟩, -, rfl, fits⟩
        exact ⟨inside, rfl, whole ▸ .star line fits⟩
      · rintro ⟨inside, rfl, fits⟩
        generalize rest : text.drop i = left at fits
        cases fits with
        | @star front parts later line fits =>
          obtain ⟨rfl, further⟩ := dropFurther inside front rest
          exact ⟨_, ⟨inside, front, rfl, rfl, line⟩, further, rfl, fits⟩
    | one set =>
      simp only [Part.pattern, betweenChar, ih]
      constructor
      · rintro ⟨_, ⟨c, whole, rfl, holds⟩, inside, rfl, fits⟩
        exact ⟨Nat.le_of_succ_le inside, rfl, whole ▸ .one holds fits⟩
      · rintro ⟨inside, rfl, fits⟩
        generalize rest : text.drop i = left at fits
        cases fits with
        | @one set c parts later holds fits =>
          obtain ⟨rfl, further⟩ := dropFurther inside [c] rest
          exact ⟨_, ⟨c, rfl, rfl, holds⟩, further, rfl, fits⟩

theorem inOrderCons (p : Pattern) (later : List Pattern) :
    Pattern.inOrder (p :: later) = .seq p (Pattern.inOrder later) := rfl

theorem betweenStart : Between text (.look .textStart) i j ↔ i = j ∧ i = 0 := by
  rw [betweenLook, Pattern.Look.holds, Pattern.charBefore]
  constructor
  · rintro ⟨rfl, inside, first⟩
    refine ⟨rfl, Decidable.byContradiction fun later => ?_⟩
    rw [if_neg later, List.getElem?_eq_getElem (by omega)] at first
    cases first
  · rintro ⟨rfl, rfl⟩
    exact ⟨rfl, Nat.zero_le _, rfl⟩

theorem betweenDirectories : Between text Pattern.directories i j ↔ i ≤ text.length ∧
    ∃ front, text.drop i = front ++ '/' :: text.drop j ∧ j = i + front.length + 1 ∧
      '\n' ∉ front := by
  simp only [Pattern.directories, inOrderCons, betweenSeq, betweenStar, betweenChar,
    CharSet.memSingle]
  constructor
  · rintro ⟨k, ⟨inside, front, whole, rfl, line⟩, _, ⟨c, slash, rfl, rfl⟩, last⟩
    obtain ⟨rfl, -⟩ := betweenEmpty.mp last
    exact ⟨inside, front, by rw [whole, slash], rfl, line⟩
  · rintro ⟨inside, front, whole, rfl, line⟩
    obtain ⟨slash, further⟩ := dropFurther inside front whole
    refine ⟨_, ⟨inside, front, by rw [whole, slash], rfl, line⟩, _, ⟨'/', slash.symm, rfl, rfl⟩, ?_⟩
    exact betweenEmpty.mpr ⟨rfl, (dropFurther further ['/'] slash.symm).2⟩

theorem betweenOptional {p : Pattern} : Between text (.rep 0 (some 1) p) i j ↔
    i = j ∧ i ≤ text.length ∨ Between text p i j := by
  rw [Pattern.repIff]
  constructor
  · rintro ⟨n, -, few, times⟩
    have few := few 1 rfl
    cases n with
    | zero => exact .inl times
    | succ n =>
      obtain rfl : n = 0 := by omega
      obtain ⟨k, one, rfl, -⟩ := times
      exact .inr one
  · rintro (still | one)
    · exact ⟨0, Nat.le_refl _, fun _ _ => Nat.zero_le _, still⟩
    · refine ⟨1, Nat.zero_le _, ?_, j, one, rfl, one.order.2⟩
      rintro bound same
      cases same
      exact Nat.le_refl _

theorem wholeIff (anywhere : Bool) (parts : List Part) (text : List Char) :
    Pattern.Occurs (wholePattern anywhere parts) text ↔ Covers anywhere parts text := by
  unfold Pattern.Occurs wholePattern Covers
  cases anywhere with
  | false =>
    simp only [Bool.false_eq_true, if_false, List.nil_append, inOrderCons, betweenSeq,
      betweenStart, betweenParts, false_and, or_false]
    constructor
    · rintro ⟨_, _, _, ⟨rfl, rfl⟩, -, rfl, fits⟩
      exact fits
    · intro fits
      exact ⟨0, _, 0, ⟨rfl, rfl⟩, Nat.zero_le _, rfl, fits⟩
  | true =>
    simp only [if_true, List.cons_append, List.nil_append, inOrderCons, betweenSeq, betweenStart,
      betweenOptional, betweenDirectories, betweenParts, true_and]
    constructor
    · rintro ⟨_, _, _, ⟨rfl, rfl⟩, k, (⟨rfl, -⟩ | ⟨-, front, whole, -, line⟩), -, rfl, fits⟩
      · exact .inl fits
      · exact .inr ⟨front, _, whole, line, fits⟩
    · rintro (fits | ⟨front, rest, whole, line, fits⟩)
      · exact ⟨0, _, 0, ⟨rfl, rfl⟩, 0, .inl ⟨rfl, Nat.zero_le _⟩, Nat.zero_le _, rfl, fits⟩
      · have split : text.drop 0 = (front ++ ['/']) ++ rest := by
          rw [List.drop_zero, whole, List.append_assoc]
          rfl
        obtain ⟨rfl, further⟩ := dropFurther (Nat.zero_le _) _ split
        rw [Nat.zero_add] at whole fits further
        refine ⟨0, _, 0, ⟨rfl, rfl⟩, _, .inr ⟨Nat.zero_le _, front, whole, ?_, line⟩, further, rfl,
          fits⟩
        rw [List.length_append, Nat.zero_add]
        rfl

theorem orderRanged {patterns : List Pattern} (all : ∀ p ∈ patterns, p.Ranged) :
    (Pattern.inOrder patterns).Ranged := by
  induction patterns with
  | nil => trivial
  | cons p later ih =>
    exact ⟨all p List.mem_cons_self, ih fun q listed => all q (List.mem_cons_of_mem _ listed)⟩

theorem partRanged (part : Part) : part.pattern.Ranged := by
  cases part with
  | star => exact ⟨nofun, trivial⟩
  | one => trivial

theorem directoriesRanged : Pattern.directories.Ranged := by
  refine orderRanged fun p listed => ?_
  rcases List.mem_cons.mp listed with rfl | listed
  · exact partRanged .star
  · obtain rfl := List.mem_singleton.mp listed
    trivial

theorem wholeRanged (anywhere : Bool) (parts : List Part) :
    (wholePattern anywhere parts).Ranged := by
  refine orderRanged fun p listed => ?_
  simp only [List.mem_cons, List.mem_append, List.mem_map, List.not_mem_nil, or_false] at listed
  rcases listed with rfl | (prefixed | ⟨part, -, rfl⟩) | rfl
  · trivial
  · cases anywhere with
    | false => cases prefixed
    | true =>
      obtain rfl := List.mem_singleton.mp prefixed
      exact ⟨fun _ _ => Nat.zero_le _, directoriesRanged⟩
  · exact partRanged part
  · trivial

theorem wholeOccurs (anywhere : Bool) (parts : List Part) (text : List Char) :
    Pattern.occurs (wholePattern anywhere parts) text = true ↔ Covers anywhere parts text :=
  (Pattern.occursIff (wholeRanged _ _) text).trans (wholeIff _ _ text)

theorem globCovers {glob : List Char} {p : Pattern} (read : Pattern.read (expression glob) = .ok p) :
    ∃ parts, Spelled (body glob) parts ∧
      ∀ text, Pattern.occurs p text = true ↔ Covers (anywhere glob) parts text := by
  obtain ⟨parts, spelled, rfl⟩ := readGlob read
  exact ⟨parts, spelled, wholeOccurs _ _⟩

theorem lastCons {α : Type} {first last : α} {later : List α}
    (ends : later.getLast? = some last) : (first :: later).getLast? = some last := by
  rw [List.getLast?_cons, ends]
  rfl

theorem lastOfCons {α : Type} {first last : α} {later : List α}
    (ends : (first :: later).getLast? = some last) :
    later = [] ∧ first = last ∨ later.getLast? = some last := by
  rw [List.getLast?_cons] at ends
  cases found : later.getLast? with
  | none =>
    rw [found] at ends
    exact .inl ⟨List.getLast?_eq_none_iff.mp found, Option.some.inj ends⟩
  | some _ =>
    rw [found] at ends
    exact .inr ends

theorem lastOfAppend {α : Type} {last : α} (front : List α) {later : List α}
    (ends : (front ++ later).getLast? = some last) (some : later ≠ []) :
    later.getLast? = Option.some last := by
  rw [List.getLast?_append] at ends
  cases found : later.getLast? with
  | none => exact absurd (List.getLast?_eq_none_iff.mp found) some
  | some _ =>
    rw [found] at ends
    exact ends

theorem Spelled.last {glob : List Char} (spelled : Spelled glob parts) {c : Char}
    (ends : glob.getLast? = some c) (any : c ≠ '?') (bracket : c ≠ ']') :
    parts.getLast? = some (if c = '*' then .star else .one (.single c)) := by
  induction spelled with
  | nil => cases ends
  | @star rest parts later ih =>
    by_cases more : rest.dropWhile (· == '*') = []
    · have star : c = '*' := by
        rcases List.mem_cons.mp (List.mem_of_getLast? ends) with same | listed
        · exact same
        · simpa using List.dropWhile_eq_nil_iff.mp more c listed
      rw [more] at later
      cases later
      rw [if_pos star]
      rfl
    · rcases lastOfCons ends with ⟨rfl, -⟩ | ends
      · exact absurd rfl more
      · rw [← List.takeWhile_append_dropWhile (p := (· == '*')) (l := rest)] at ends
        exact lastCons (ih (lastOfAppend _ ends more))
  | @any rest parts later ih =>
    rcases lastOfCons ends with ⟨-, same⟩ | ends
    · exact absurd same.symm any
    · exact lastCons (ih ends)
  | @items rest items parts site more meant behind known whole read later ih =>
    obtain ⟨⟨more, split, rfl⟩, -⟩ := classItemsCut known
    rcases lastOfCons ends with ⟨rfl, -⟩ | ends
    · cases items <;> cases split
    · rw [split] at ends
      rcases lastOfCons (lastOfAppend items ends (List.cons_ne_nil _ _)) with ⟨-, same⟩ | ends
      · exact absurd same.symm bracket
      · exact lastCons (ih ends)
  | @plain d rest parts star other items later ih =>
    rcases lastOfCons ends with ⟨rfl, rfl⟩ | ends
    · cases later
      rw [if_neg star]
      rfl
    · exact lastCons (ih ends)

theorem Fits.further (fits : Fits parts text) (starred : parts.getLast? = some .star)
    {more : List Char} (line : '\n' ∉ more) : Fits parts (text ++ more) := by
  induction fits with
  | nil => cases starred
  | @one set c parts text holds later ih =>
    rcases lastOfCons starred with ⟨-, same⟩ | starred
    · cases same
    · exact .one holds (ih starred)
  | @star front parts text line' later ih =>
    rcases lastOfCons starred with ⟨rfl, -⟩ | starred
    · cases later
      have whole : Fits [.star] ((front ++ more) ++ []) :=
        .star (fun listed => (List.mem_append.mp listed).elim line' line) .nil
      simpa using whole
    · rw [List.append_assoc]
      exact .star line' (ih starred)

theorem Fits.last (fits : Fits parts text) {c : Char}
    (closed : parts.getLast? = some (.one (.single c))) : text.getLast? = some c := by
  induction fits with
  | nil => cases closed
  | @one set d parts text holds later ih =>
    rcases lastOfCons closed with ⟨rfl, same⟩ | closed
    · cases same
      cases later
      rw [(CharSet.memSingle _ _).mp holds]
      rfl
    · exact lastCons (ih closed)
  | @star front parts text line later ih =>
    rcases lastOfCons closed with ⟨-, same⟩ | closed
    · cases same
    · rw [List.getLast?_append, ih closed]
      rfl

theorem bodyLast {glob : List Char} {c : Char} (ends : glob.getLast? = some c) (slash : c ≠ '/') :
    (body glob).getLast? = some c := by
  unfold body
  cases found : Text.after ['*', '*', '/'] glob with
  | none => exact ends
  | some rest =>
    rw [Text.afterSome.mp found] at ends
    rcases lastOfCons (lastOfAppend ['*', '*'] ends (List.cons_ne_nil _ _)) with ⟨-, same⟩ | ends
    · exact absurd same.symm slash
    · exact ends

theorem Covers.last {anywhere : Bool} (covers : Covers anywhere parts text) {c : Char}
    (closed : parts.getLast? = some (.one (.single c))) : text.getLast? = some c := by
  rcases covers with fits | ⟨-, front, rest, rfl, -, fits⟩
  · exact fits.last closed
  · rw [List.getLast?_append, lastCons (fits.last closed)]
    rfl

theorem Covers.further {anywhere : Bool} (covers : Covers anywhere parts text)
    (starred : parts.getLast? = some .star) {more : List Char} (line : '\n' ∉ more) :
    Covers anywhere parts (text ++ more) := by
  rcases covers with fits | ⟨begun, front, rest, rfl, line', fits⟩
  · exact .inl (fits.further starred line)
  · exact .inr ⟨begun, front, rest ++ more, by rw [List.append_assoc]; rfl, line',
      fits.further starred line⟩

/- A glob that covers a path with a slash in the end, although it has none there itself, ends in
a star, and then it covers all that goes on from that path. -/
theorem globDown {glob : List Char} {p : Pattern} (read : Pattern.read (expression glob) = .ok p)
    {c : Char} (ends : glob.getLast? = some c) (slash : c ≠ '/') (any : c ≠ '?')
    (bracket : c ≠ ']') {directory more : List Char} (line : '\n' ∉ more)
    (covered : Pattern.occurs p (directory ++ ['/']) = true) :
    Pattern.occurs p (directory ++ '/' :: more) = true := by
  obtain ⟨parts, spelled, covers⟩ := globCovers read
  have last := spelled.last (bodyLast ends slash) any bracket
  rw [covers] at covered ⊢
  by_cases star : c = '*'
  · rw [if_pos star] at last
    simpa using covered.further last line
  · rw [if_neg star] at last
    have same := covered.last last
    rw [List.getLast?_concat] at same
    exact absurd (Option.some.inj same).symm slash

end CommentStrip.Glob
