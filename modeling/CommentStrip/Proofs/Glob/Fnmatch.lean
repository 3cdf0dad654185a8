import CommentStrip.Proofs.Glob.Items
import CommentStrip.Proofs.Glob.Matching
import CommentStrip.Proofs.Pattern.AllOrNothing
import Mathlib.Data.List.Infix

/-! Globs as they are meant: symbol by symbol, without a word about the expressions that they are
translated to. -/
namespace CommentStrip.Glob
open Pattern (Site State Meant CharSet)

inductive Single where
  | plain (c : Char) (free : c ∉ ['*', '?', '['])
  | any
  | items (k : Class)

inductive Symbol where
  | star
  | one (single : Single)

def Single.text : Single → List Char
  | .plain c _ => [c]
  | .any => ['?']
  | .items k => '[' :: (k.text ++ [']'])

def Symbol.text : Symbol → List Char
  | .star => ['*']
  | .one single => single.text

def globText (glob : List Symbol) : List Char := glob.flatMap Symbol.text

def Single.holds : Single → Char → Bool
  | .plain d _, c => c == d
  | .any, _ => true
  | .items k, c => k.holds c

/- A star takes any characters, and slashes are characters like any other. -/
def fnmatch : List Symbol → List Char → Bool
  | [], path => path.isEmpty
  | .star :: glob, path => path.tails.any (fnmatch glob)
  | .one single :: glob, c :: path => single.holds c && fnmatch glob path
  | .one _ :: _, [] => false

def directories : List Symbol := [.star, .star, .one (.plain '/' (by decide))]

def Symbol.isStar : Symbol → Bool
  | .star => true
  | .one _ => false

section
variable {glob rest : List Symbol} {path : List Char}

theorem starIff : fnmatch (.star :: glob) path = true ↔
    ∃ front behind, path = front ++ behind ∧ fnmatch glob behind = true := by
  simp only [fnmatch, List.any_eq_true, List.mem_tails]
  constructor
  · rintro ⟨behind, ⟨front, rfl⟩, holds⟩
    exact ⟨front, behind, rfl, holds⟩
  · rintro ⟨front, behind, rfl, holds⟩
    exact ⟨behind, ⟨front, rfl⟩, holds⟩

theorem starTwice : fnmatch (.star :: .star :: glob) path = fnmatch (.star :: glob) path := by
  rw [Bool.eq_iff_iff]
  simp only [@starIff (.star :: glob), @starIff glob]
  constructor
  · rintro ⟨front, _, rfl, more, behind, rfl, holds⟩
    exact ⟨front ++ more, behind, (List.append_assoc ..).symm, holds⟩
  · rintro ⟨front, behind, rfl, holds⟩
    exact ⟨front, behind, rfl, [], behind, rfl, holds⟩

theorem starMerge : fnmatch (.star :: glob.dropWhile Symbol.isStar) path =
    fnmatch (.star :: glob) path := by
  induction glob with
  | nil => rfl
  | cons symbol glob ih =>
    cases symbol with
    | star => rw [List.dropWhile_cons_of_pos rfl, ih, starTwice]
    | one single => rfl

theorem directoriesIff : fnmatch (directories ++ rest) path = true ↔
    ∃ front behind, path = front ++ '/' :: behind ∧ fnmatch rest behind = true := by
  rw [directories, List.cons_append, List.cons_append, starTwice, starIff]
  constructor
  · rintro ⟨front, back, rfl, holds⟩
    cases back with
    | nil => cases holds
    | cons c behind =>
      simp only [List.cons_append, List.nil_append, fnmatch, Single.holds, Bool.and_eq_true,
        beq_iff_eq] at holds
      obtain ⟨rfl, holds⟩ := holds
      exact ⟨front, behind, rfl, holds⟩
  · rintro ⟨front, behind, rfl, holds⟩
    exact ⟨front, _, rfl, by simpa [fnmatch, Single.holds] using holds⟩

theorem singleHead (single : Single) : ∃ c more, single.text = c :: more ∧ c ≠ '*' := by
  cases single with
  | plain c free => exact ⟨c, [], rfl, fun same => free (same ▸ List.mem_cons_self)⟩
  | any => exact ⟨'?', [], rfl, by decide⟩
  | items k => exact ⟨'[', _, rfl, by decide⟩

theorem textDropStars :
    (globText glob).dropWhile (· == '*') = globText (glob.dropWhile Symbol.isStar) := by
  induction glob with
  | nil => rfl
  | cons symbol glob ih =>
    cases symbol with
    | star =>
      rw [List.dropWhile_cons_of_pos rfl, ← ih]
      rfl
    | one single =>
      obtain ⟨c, more, split, other⟩ := singleHead single
      rw [List.dropWhile_cons_of_neg (by simp [Symbol.isStar])]
      simp [globText, Symbol.text, split, other]

theorem textStar {behind : List Char} (split : globText glob = '*' :: behind) :
    ∃ rest, glob = .star :: rest ∧ globText rest = behind := by
  cases glob with
  | nil => cases split
  | cons symbol glob =>
    cases symbol with
    | star => exact ⟨glob, rfl, (List.cons.inj split).2⟩
    | one single =>
      obtain ⟨c, more, text, other⟩ := singleHead single
      simp only [globText, List.flatMap_cons, Symbol.text, text, List.cons_append,
        List.cons.injEq] at split
      exact absurd split.1 other

theorem textSlash {behind : List Char} (split : globText glob = '/' :: behind) :
    ∃ rest, glob = .one (.plain '/' (by decide)) :: rest ∧ globText rest = behind := by
  cases glob with
  | nil => cases split
  | cons symbol glob =>
    cases symbol with
    | star => cases split
    | one single =>
      cases single with
      | plain c free =>
        obtain ⟨rfl, same⟩ := List.cons.inj split
        exact ⟨glob, rfl, same⟩
      | any => cases split
      | items k => cases split

theorem afterDirectories {behind : List Char} :
    Text.after ['*', '*', '/'] (globText glob) = some behind ↔
      ∃ rest, glob = directories ++ rest ∧ globText rest = behind := by
  rw [Text.afterSome]
  constructor
  · intro split
    obtain ⟨first, rfl, further⟩ := textStar split
    obtain ⟨second, rfl, slash⟩ := textStar further
    obtain ⟨rest, rfl, last⟩ := textSlash slash
    exact ⟨rest, rfl, last⟩
  · rintro ⟨rest, rfl, rfl⟩
    rfl

def Means (parts : List Part) (glob : List Symbol) : Prop :=
  ∀ path, '\n' ∉ path → (Fits parts path ↔ fnmatch glob path = true)

theorem meansNil : Means [] [] := by
  intro path line
  cases path with
  | nil => exact iff_of_true .nil rfl
  | cons c path => exact iff_of_false nofun (by simp [fnmatch])

theorem meansOne {parts : List Part} {set : CharSet} {single : Single} (later : Means parts glob)
    (same : ∀ c, c ≠ '\n' → set.mem c = single.holds c) :
    Means (.one set :: parts) (.one single :: glob) := by
  intro path line
  cases path with
  | nil => exact iff_of_false nofun (by simp [fnmatch])
  | cons c path =>
    obtain ⟨other, line⟩ := not_or.mp (mt List.mem_cons.mpr line)
    rw [fnmatch, Bool.and_eq_true, ← same c (Ne.symm other), ← later path line]
    constructor
    · intro fits
      cases fits with
      | one holds fits => exact ⟨holds, fits⟩
    · rintro ⟨holds, fits⟩
      exact .one holds fits

theorem meansStar {parts : List Part} (later : Means parts (glob.dropWhile Symbol.isStar)) :
    Means (.star :: parts) (.star :: glob) := by
  intro path line
  rw [← starMerge, starIff]
  constructor
  · intro fits
    cases fits with
    | @star front _ behind _ fits =>
      have line : '\n' ∉ behind := fun listed => line (List.mem_append_right _ listed)
      exact ⟨front, behind, rfl, (later behind line).mp fits⟩
  · rintro ⟨front, behind, rfl, holds⟩
    obtain ⟨before, line⟩ := not_or.mp (mt List.mem_append.mpr line)
    exact .star before ((later behind line).mpr holds)

end

theorem expressionStar (glob : List Symbol) : expressionFrom (globText (.star :: glob)) =
    '.' :: '*' :: expressionFrom (globText (glob.dropWhile Symbol.isStar)) := by
  rw [← textDropStars]
  show expressionFrom ('*' :: globText glob) = _
  rw [expressionFrom]

theorem expressionPlain {c : Char} {free : c ∉ ['*', '?', '[']} (glob : List Symbol) :
    expressionFrom (globText (.one (.plain c free) :: glob)) =
      escaped c ++ expressionFrom (globText glob) := by
  show expressionFrom (c :: globText glob) = _
  simp only [List.mem_cons, List.not_mem_nil, or_false, not_or] at free
  rw [expressionFrom] <;> simp [free]

theorem expressionAny (glob : List Symbol) : expressionFrom (globText (.one .any :: glob)) =
    '.' :: expressionFrom (globText glob) := by
  show expressionFrom ('?' :: globText glob) = _
  rw [expressionFrom]

theorem classItemsWhole (k : Class) (rest : List Char) :
    classItems? (k.text ++ ']' :: rest) = some k.text := by
  have all : ∀ c ∈ k.text, (c != ']') = true := by
    intro c listed
    rw [bne_iff_ne]
    rintro rfl
    exact k.textInside listed
  have cut : (k.text ++ ']' :: rest).takeWhile (· != ']') = k.text := by
    rw [List.takeWhile_append_of_pos all]
    simp
  obtain ⟨some, others⟩ := k.textSome
  simp [classItems?, cut, some, others]

theorem expressionItems (k : Class) (glob : List Symbol) :
    expressionFrom (globText (.one (.items k) :: glob)) =
      '[' :: (classBody k.text ++ ']' :: expressionFrom (globText glob)) := by
  have whole : globText (.one (.items k) :: glob) = '[' :: (k.text ++ ']' :: globText glob) := by
    simp [globText, Symbol.text, Single.text]
  have behind : (k.text ++ ']' :: globText glob).drop (k.text.length + 1) = globText glob := by
    rw [← List.drop_drop, List.drop_left]
    rfl
  rw [whole, expressionFrom, classItemsWhole]
  simp only [behind, List.cons_append]

end CommentStrip.Glob

namespace CommentStrip.Pattern
open Glob (Symbol Means globText)
variable {st : State} {s : Site} {glob rest : List Symbol}

def Through (glob : List Symbol) (st : State) (s : Site) : Prop :=
  ∃ parts last, Site.rest last = ['$'] ∧ readFrom st s = readFrom (st.taken parts st.fault) last ∧
    Means parts glob

theorem Through.push {later : Site} (part : Glob.Part)
    (read : readFrom st s = readFrom (st.push (.sound part.pattern)) later)
    (through : Through rest (st.push (.sound part.pattern)) later)
    (means : ∀ {parts}, Means parts rest → Means (part :: parts) glob) : Through glob st s := by
  obtain ⟨parts, last, dollar, same, known⟩ := through
  refine ⟨part :: parts, last, dollar, ?_, means known⟩
  rw [read, same]
  simp [State.taken, State.push, Meant.sound]

theorem readItems {set : CharSet} {behind : Site} {more : List Char} (flags : st.flags = .initial)
    (whole : s.rest = '[' :: more) (read : readClass .initial s = .ok (⟨set, none⟩, behind))
    (moved : behind.rest.length < s.rest.length) :
    readFrom st s = readFrom (st.push (.sound (.char set))) behind := by
  have meant : step st '[' s = .ok (st.push (.sound (.char set)), behind) := by
    simp only [step, flags, read]
    rfl
  exact readStep (by rw [flags, initialPlain]) whole meant moved

/- The recursion is on the symbols; a star takes those next to it along. -/
theorem readThrough (glob : List Symbol) {st : State} {s : Site} (flags : st.flags = .initial)
    (whole : s.rest = Glob.expressionFrom (globText glob) ++ ['$']) : Through glob st s := by
  match glob with
  | [] =>
    rw [globText, List.flatMap_nil, Glob.expressionFrom] at whole
    exact ⟨[], s, whole, rfl, Glob.meansNil⟩
  | .star :: glob =>
    rw [Glob.expressionStar] at whole
    have behind := @Site.advanceRest s ['.', '*'] _ whole
    exact .push .star (readDotStar flags whole (notLazy _)) (readThrough _ flags behind)
      Glob.meansStar
  | .one .any :: glob =>
    rw [Glob.expressionAny] at whole
    have same (c : Char) (other : c ≠ '\n') : Glob.noFeed.mem c = Glob.Single.any.holds c :=
      (Glob.noFeedHolds c).mpr other
    exact .push (.one Glob.noFeed) (readDot flags whole)
      (readThrough glob flags (Site.advanceOne whole).1) fun later => Glob.meansOne later same
  | .one (.plain c free) :: glob =>
    rw [Glob.expressionPlain, List.append_assoc] at whole
    have same (d : Char) (_ : d ≠ '\n') :
        (CharSet.single c).mem d = (Glob.Single.plain c free).holds d := by
      rw [Bool.eq_iff_iff, CharSet.memSingle, Glob.Single.holds, beq_iff_eq]
    exact .push (.one (.single c)) (readLiteral flags whole)
      (readThrough glob flags (Site.advanceRest whole)) fun later => Glob.meansOne later same
  | .one (.items k) :: glob =>
    rw [Glob.expressionItems, List.cons_append, List.append_assoc, List.cons_append] at whole
    obtain ⟨set, behind, read, rest, same⟩ := classRead k whole
    have moved : behind.rest.length < s.rest.length := by
      rw [rest, whole]
      simp only [List.length_cons, List.length_append]
      omega
    exact .push (.one set) (readItems flags whole read moved) (readThrough glob flags rest)
      fun later => Glob.meansOne later fun c _ => same c
termination_by glob.length
decreasing_by
  · exact Nat.lt_succ_of_le (List.dropWhile_sublist _).length_le
  all_goals exact Nat.lt_succ_self _

theorem readBehind (front : List Pattern) (glob : List Symbol) {st : State} {s : Site}
    (flags : st.flags = .initial) (items : st.items = (front.map Item.node).reverse)
    (groups : st.groups = []) (alternatives : st.alternatives = []) (sound : st.fault = none)
    (whole : s.rest = Glob.expressionFrom (globText glob) ++ ['$']) :
    ∃ parts, Means parts glob ∧ readFrom st s =
      .ok (inOrder (front ++ parts.map Glob.Part.pattern ++ [.look .textEnd])) := by
  obtain ⟨parts, last, dollar, same, means⟩ := readThrough glob flags whole
  refine ⟨parts, means, ?_⟩
  rw [same]
  refine readSound flags ?_ groups alternatives sound dollar
  simp [State.taken, items, Function.comp_def]

end CommentStrip.Pattern

namespace CommentStrip.Glob
open Pattern (Site)
variable {glob : List Symbol}

theorem readsDirectories (rest : List Symbol) : ∃ p,
    Pattern.read (expression (globText (directories ++ rest))) = .ok p ∧
      ∀ path, '\n' ∉ path → (Pattern.occurs p path = true ↔ fnmatch rest path = true ∨
        ∃ front behind, path = front ++ '/' :: behind ∧ fnmatch rest behind = true) := by
  have start : (Site.start (expression (globText (directories ++ rest)))).rest =
      '^' :: (anyDirectories ++ (expressionFrom (globText rest) ++ ['$'])) := by
    rw [expression, afterDirectories.mpr ⟨rest, rfl, rfl⟩, ← List.append_assoc]
    rfl
  have behind := (Site.advanceOne start).1
  obtain ⟨parts, means, read⟩ : ∃ parts, Means parts rest ∧
      Pattern.read (expression (globText (directories ++ rest))) =
        .ok (wholePattern true parts) := by
    rw [Pattern.read, Pattern.readStart rfl start,
      Pattern.readDirectories rfl behind (Pattern.notLazy _)]
    exact Pattern.readBehind [.look .textStart, .rep 0 (some 1) Pattern.directories] rest
      rfl rfl rfl rfl rfl (Site.advanceRest behind)
  refine ⟨wholePattern true parts, read, fun path line => ?_⟩
  rw [wholeOccurs, Covers, means path line]
  refine or_congr Iff.rfl ⟨?_, ?_⟩
  · rintro ⟨-, front, behind, rfl, -, fits⟩
    have later : '\n' ∉ behind := fun listed => line (by simp [listed])
    exact ⟨front, behind, rfl, (means behind later).mp fits⟩
  · rintro ⟨front, behind, rfl, holds⟩
    have before : '\n' ∉ front := fun listed => line (by simp [listed])
    have later : '\n' ∉ behind := fun listed => line (by simp [listed])
    exact ⟨rfl, front, behind, rfl, before, (means behind later).mpr holds⟩

theorem readsWhole (other : ∀ rest, glob ≠ directories ++ rest) : ∃ p,
    Pattern.read (expression (globText glob)) = .ok p ∧
      ∀ path, '\n' ∉ path → (Pattern.occurs p path = true ↔ fnmatch glob path = true) := by
  have none : Text.after ['*', '*', '/'] (globText glob) = none := by
    rw [Option.eq_none_iff_forall_ne_some]
    intro behind found
    obtain ⟨rest, same, -⟩ := afterDirectories.mp found
    exact other rest same
  have start : (Site.start (expression (globText glob))).rest =
      '^' :: (expressionFrom (globText glob) ++ ['$']) := by
    rw [expression, none]
    rfl
  obtain ⟨parts, means, read⟩ : ∃ parts, Means parts glob ∧
      Pattern.read (expression (globText glob)) = .ok (wholePattern false parts) := by
    rw [Pattern.read, Pattern.readStart rfl start]
    exact Pattern.readBehind [.look .textStart] glob rfl rfl rfl rfl rfl (Site.advanceOne start).1
  refine ⟨wholePattern false parts, read, fun path line => ?_⟩
  rw [wholeOccurs, Covers, means path line]
  simp

/- A glob covers what it matches; one for all directories covers what its rest matches in any of
them. -/
def Covered (glob : List Symbol) (path : List Char) : Prop :=
  fnmatch glob path = true ∨ ∃ rest, glob = directories ++ rest ∧
    (fnmatch rest path = true ∨
      ∃ front behind, path = front ++ '/' :: behind ∧ fnmatch rest behind = true)

theorem globReads (glob : List Symbol) : ∃ p, Pattern.read (expression (globText glob)) = .ok p ∧
    ∀ path, '\n' ∉ path → (Pattern.occurs p path = true ↔ Covered glob path) := by
  by_cases begins : ∃ rest, glob = directories ++ rest
  · obtain ⟨rest, rfl⟩ := begins
    obtain ⟨p, read, occurs⟩ := readsDirectories rest
    refine ⟨p, read, fun path line => (occurs path line).trans ⟨?_, ?_⟩⟩
    · exact fun covered => .inr ⟨rest, rfl, covered⟩
    · rintro (whole | ⟨rest', same, covered⟩)
      · exact .inr (directoriesIff.mp whole)
      · rw [List.append_cancel_left same]
        exact covered
  · rw [not_exists] at begins
    obtain ⟨p, read, occurs⟩ := readsWhole begins
    refine ⟨p, read, fun path line => (occurs path line).trans ?_⟩
    simp [Covered, begins]

/- A glob of any symbols is accepted unless its expression is too long, and then it excludes the
paths that it matches symbol by symbol. -/
theorem globsMatch (glob : List Symbol)
    (short : (String.ofList (expression (globText glob))).utf8ByteSize ≤ 500) :
    ∃ set, ExcludeSet.compile [String.ofList (globText glob)] [] = .ok set ∧
      ∀ path, '\n' ∉ path → (set.excludes path = true ↔ Covered glob path) := by
  obtain ⟨p, read, occurs⟩ := globReads glob
  have reads : Pattern.Reads
      (String.ofList (expression (String.ofList (globText glob)).toList)) (Pattern.occurs p) :=
    ⟨by rwa [String.toList_ofList],
      Pattern.spokenRead (by rwa [String.toList_ofList, String.toList_ofList])⟩
  refine ⟨⟨[⟨String.ofList (globText glob), Pattern.occurs p⟩], []⟩, ?_, fun path line => ?_⟩
  · exact ExcludeSet.compileReads.mpr ⟨.cons ⟨rfl, reads⟩ .nil, .nil⟩
  · rw [← occurs path line]
    simp [ExcludeSet.excludes]

theorem globsMatchNegated : ∃ set, ExcludeSet.compile ["**/[!a-m^]*.c"] [] = .ok set ∧
    set.excludes "lib/x.c".toList = true ∧ set.excludes "lib/^.c".toList = false := by
  let k : Class := ⟨true, .range 'a' 'm' ⟨by decide, by decide⟩, [.one '^' (by decide)], nofun⟩
  let rest : List Symbol :=
    [.one (.items k), .star, .one (.plain '.' (by decide)), .one (.plain 'c' (by decide))]
  obtain ⟨set, compiled, covers⟩ := globsMatch (directories ++ rest) (by decide +kernel)
  refine ⟨set, compiled, ?_, ?_⟩
  · rw [covers _ (by decide)]
    exact .inr ⟨rest, rfl, .inr ⟨"lib".toList, "x.c".toList, by decide, by decide⟩⟩
  · rw [Bool.eq_false_iff, ne_eq, covers _ (by decide)]
    rintro (whole | ⟨rest', same, covered⟩)
    · revert whole
      decide
    · rw [← List.append_cancel_left same, ← directoriesIff] at covered
      revert covered
      decide

end CommentStrip.Glob
