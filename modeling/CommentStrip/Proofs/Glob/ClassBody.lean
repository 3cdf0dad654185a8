import CommentStrip.Exclude

/-! Items of a bracket, escaped one by one, are read up to the bracket that closes them, whatever
set they stand for. -/
namespace CommentStrip

theorem Glob.classBodyPlain {items : List Char} (unsigned : items.head? ≠ some '!') :
    classBody items = items.flatMap escapedInClass := by
  unfold classBody
  split
  · exact absurd rfl unsigned
  · rfl

namespace Pattern
open Glob (escapedInClass)

theorem initialPlain : Flags.initial.verbose = false := rfl

namespace Site

theorem spacesPlain (s : Site) : s.spaces false = s := rfl

theorem nextPlain (s : Site) : s.next false = s.advance 1 := rfl

theorem advanceRest {s : Site} {front rest : List Char} (whole : s.rest = front ++ rest) :
    (s.advance front.length).rest = rest := by
  rw [advance, whole, List.drop_left]

theorem advanceAdd (s : Site) (m n : Nat) : (s.advance m).advance n = s.advance (m + n) := by
  simp only [advance, List.drop_drop, List.length_drop, Site.mk.injEq, and_true]
  omega

theorem advanceTwice (s : Site) : (s.advance 1).advance 1 = s.advance 2 := advanceAdd s 1 1

theorem advanceOne {s : Site} {c : Char} {rest : List Char} (whole : s.rest = c :: rest) :
    (s.advance 1).rest = rest ∧ (s.advance 1).index = s.index + 1 := by
  simp [advance, whole]

theorem charHead {s : Site} {c : Char} {rest : List Char} (whole : s.rest = c :: rest) :
    s.char? = some c := by
  rw [char?, whole]
  rfl

theorem startsTwice {s : Site} {mark : Char} {word : String} (whole : word.toList = [mark, mark])
    (begins : s.starts word = true) : s.char? = some mark ∧ (s.advance 1).char? = some mark := by
  rw [starts, whole] at begins
  obtain ⟨more, same⟩ := Text.startsWithIff.mp begins
  exact ⟨charHead same, charHead (advanceOne same).1⟩

end Site

variable {s behind : Site} {items rest : List Char} {c : Char} {flags : Flags}

theorem escapeMeta (special : isMeta c = true) (whole : s.rest = '\\' :: c :: rest) :
    escape false s = .ok (.literal c false, s.advance 2) := by
  have named : (s.advance 1).char? = some c := Site.charHead (Site.advanceOne whole).1
  simp only [escape, named, Site.advanceTwice]
  simp only [isMeta, List.contains_iff_mem, List.mem_cons, List.not_mem_nil, or_false] at special
  rcases special with rfl | rfl | rfl | rfl | rfl | rfl | rfl | rfl | rfl | rfl | rfl | rfl |
    rfl | rfl | rfl | rfl | rfl | rfl <;> rfl

/- The items that are still to come before the bracket closes. -/
structure Ahead (s : Site) (items rest : List Char) : Prop where
  whole : s.rest = items.flatMap escapedInClass ++ ']' :: rest
  inside : ']' ∉ items

theorem escapedCases (c : Char) :
    (escapedInClass c = ['\\', c] ∧ c ∈ ['\\', '[', '&', '~', '^']) ∨
      (escapedInClass c = [c] ∧ c ∉ ['\\', '[', '&', '~', '^']) := by
  unfold escapedInClass
  by_cases special : c ∈ ['\\', '[', '&', '~', '^']
  · exact .inl ⟨if_pos special, special⟩
  · exact .inr ⟨if_neg special, special⟩

theorem Ahead.first (ahead : Ahead s (c :: items) rest) :
    s.rest = escapedInClass c ++ (items.flatMap escapedInClass ++ ']' :: rest) := by
  rw [ahead.whole, List.flatMap_cons, List.append_assoc]

theorem Ahead.later (ahead : Ahead s (c :: items) rest) :
    Ahead (s.advance (escapedInClass c).length) items rest :=
  ⟨Site.advanceRest ahead.first, fun listed => ahead.inside (List.mem_cons_of_mem _ listed)⟩

theorem Ahead.atom (ahead : Ahead s (c :: items) rest) :
    classAtom false s = .ok (.literal c false, s.advance (escapedInClass c).length) := by
  have whole := ahead.first
  rcases escapedCases c with ⟨escaped, special⟩ | ⟨plain, other⟩
  · rw [escaped] at whole ⊢
    rw [classAtom, Site.charHead whole]
    have known : ['\\', '[', '&', '~', '^'].all isMeta = true := by decide
    exact escapeMeta (List.all_eq_true.mp known c special) whole
  · rw [plain] at whole ⊢
    have notSlash : c ≠ '\\' := fun same => other (same ▸ List.mem_cons_self)
    unfold classAtom
    rw [Site.charHead whole]
    split
    · rename_i same
      exact absurd (Option.some.inj same) notSlash
    · rename_i same
      cases same
      rfl
    · rename_i same
      cases same

theorem Ahead.more (ahead : Ahead s items rest) : s.atEnd = false := by
  rw [Site.atEnd, ahead.whole, List.isEmpty_eq_false_iff]
  exact List.append_ne_nil_of_right_ne_nil _ (List.cons_ne_nil _ _)

theorem Ahead.hyphen (ahead : Ahead s items rest) (here : s.char? = some '-') :
    ∃ later, items = '-' :: later ∧ Ahead (s.advance 1) later rest := by
  cases items with
  | nil =>
    rw [Site.charHead ahead.whole] at here
    cases here
  | cons c later =>
    rcases escapedCases c with ⟨escaped, -⟩ | ⟨plain, -⟩
    · have whole := ahead.first
      rw [escaped] at whole
      rw [Site.charHead whole] at here
      cases here
    · have whole := ahead.first
      rw [plain] at whole
      rw [Site.charHead whole] at here
      obtain rfl := Option.some.inj here
      exact ⟨later, rfl, ahead.later⟩

theorem unclosedFails {α : Type} (st : ClassState) (a : α) : st.unclosed ≠ .ok a := by
  unfold ClassState.unclosed
  split <;> nofun

theorem classRangeAhead {st later : ClassState} (plain : flags.verbose = false)
    (ahead : Ahead s (c :: items) rest) (read : classRange flags s st = .ok (later, behind)) :
    ∃ left, Ahead behind left rest ∧ left.length ≤ items.length ∧
      later.brackets = st.brackets := by
  have next := ahead.later
  unfold classRange at read
  simp only [plain, bind, Except.bind, ahead.atom, itemSet, boundary, Site.spacesPlain,
    Site.nextPlain] at read
  generalize s.advance (escapedInClass c).length = hyphen at next read
  split at read
  · exact absurd read (unclosedFails st _)
  · rename_i mark here
    split at read
    · cases read
      exact ⟨items, next, Nat.le_refl _, rfl⟩
    · rename_i range
      simp only [Bool.or_eq_true, not_or, bne_iff_ne, ne_eq, Decidable.not_not,
        beq_iff_eq] at range
      obtain ⟨⟨rfl, notLast⟩, -⟩ := range
      obtain ⟨items, rfl, second⟩ := next.hyphen here
      cases items with
      | nil => exact absurd (Site.charHead second.whole) notLast
      | cons high left =>
        rw [second.atom] at read
        split at read
        · exact absurd read (unclosedFails st _)
        · simp only at read
          split at read
          · cases read
          · cases read
            exact ⟨left, second.later, by simp only [List.length_cons]; omega, rfl⟩

theorem Ahead.begin (ahead : Ahead s (c :: items) rest) :
    s.char? = some '\\' ∨ s.char? = some c ∧ c ∉ ['\\', '[', '&', '~', '^', ']'] := by
  have whole := ahead.first
  rcases escapedCases c with ⟨escaped, -⟩ | ⟨plain, other⟩
  · rw [escaped] at whole
    exact .inl (Site.charHead whole)
  · rw [plain] at whole
    refine .inr ⟨Site.charHead whole, fun listed => ?_⟩
    have last : c = ']' := by
      simp only [List.mem_cons, List.not_mem_nil, or_false, not_or] at other listed
      simpa [other] using listed
    exact ahead.inside (last ▸ List.mem_cons_self)

theorem Ahead.noBracket (ahead : Ahead s (c :: items) rest) :
    ∃ mark, s.char? = some mark ∧ mark ≠ '[' ∧ mark ≠ ']' := by
  rcases ahead.begin with slash | ⟨same, other⟩
  · exact ⟨'\\', slash, by decide, by decide⟩
  · refine ⟨c, same, ?_, ?_⟩ <;> rintro rfl <;> exact other (by decide)

theorem Ahead.operator (ahead : Ahead s (c :: items) rest) {op : ClassOp}
    (found : classOperator s = some op) :
    ∃ left, Ahead (s.advance 2) left rest ∧ left.length ≤ items.length := by
  have escaped {mark : Char} (here : s.char? = some mark) : mark ≠ '&' ∧ mark ≠ '~' := by
    rcases ahead.begin with slash | ⟨same, other⟩
    · cases here.symm.trans slash
      decide
    · cases here.symm.trans same
      constructor <;> rintro rfl <;> exact other (by decide)
  unfold classOperator at found
  split at found
  · rename_i begins
    exact absurd rfl (escaped (Site.startsTwice rfl begins).1).1
  · split at found
    · rename_i begins
      obtain ⟨first, second⟩ := Site.startsTwice rfl begins
      obtain ⟨later, same, next⟩ := ahead.hyphen first
      cases same
      obtain ⟨left, rfl, far⟩ := next.hyphen second
      exact ⟨left, Site.advanceTwice s ▸ far, Nat.le_succ _⟩
    · split at found
      · rename_i begins
        exact absurd rfl (escaped (Site.startsTwice rfl begins).1).2
      · cases found

theorem classStepLast {st : ClassState} {b : Bracket} (alone : st.brackets = [b])
    (last : s.rest = ']' :: rest) :
    ∃ meant, classStep flags s st = .ok (.inr (meant, s.advance 1)) := by
  unfold classStep
  rw [alone, Site.charHead last]
  exact ⟨_, rfl⟩

theorem classStepAhead {st : ClassState} {b : Bracket} (plain : flags.verbose = false)
    (ahead : Ahead s (c :: items) rest) (alone : st.brackets = [b])
    {result : (ClassState × Site) ⊕ (Meant CharSet × Site)}
    (read : classStep flags s st = .ok result) :
    ∃ later behind b' left, result = .inl (later, behind) ∧ later.brackets = [b'] ∧
      Ahead behind left rest ∧ left.length ≤ items.length := by
  obtain ⟨mark, here, opening, closing⟩ := ahead.noBracket
  unfold classStep at read
  rw [alone, here] at read
  simp only [if_neg opening, if_neg closing] at read
  split at read
  · rename_i op found
    obtain ⟨left, far, fewer⟩ := ahead.operator found
    cases read
    exact ⟨_, _, _, left, rfl, rfl, far, fewer⟩
  · obtain ⟨⟨later, behind⟩, one, same⟩ : ∃ pair, classRange flags s st = .ok pair ∧
        result = .inl pair := by
      cases ranged : classRange flags s st with
      | error fault => rw [ranged] at read; cases read
      | ok pair => rw [ranged] at read; cases read; exact ⟨pair, rfl, rfl⟩
    obtain ⟨left, far, fewer, kept⟩ := classRangeAhead plain ahead one
    exact ⟨later, behind, b, left, same, kept.trans alone, far, fewer⟩

theorem classFromAhead (plain : flags.verbose = false) (ahead : Ahead s items rest)
    {st : ClassState} {b : Bracket} (alone : st.brackets = [b]) {meant : Meant CharSet}
    (read : classFrom flags s st = .ok (meant, behind)) : behind.rest = rest := by
  induction measure : items.length using Nat.strongRecOn generalizing items s st b with
  | ind size ih =>
    rw [classFrom, plain, Site.spacesPlain] at read
    cases items with
    | nil =>
      obtain ⟨closed, step⟩ := classStepLast alone ahead.whole
      rw [step] at read
      cases read
      exact (Site.advanceOne ahead.whole).1
    | cons c items =>
      cases step : classStep flags s st with
      | error fault => simp only [step, reduceCtorEq] at read
      | ok result =>
        obtain ⟨later, next, b', left, rfl, alone', far, fewer⟩ :=
          classStepAhead plain ahead alone step
        simp only [step] at read
        split at read
        · exact ih left.length (by rw [← measure, List.length_cons]; omega) far alone' read rfl
        · exact absurd read (unclosedFails st _)

theorem leadingHyphensAhead {opened : Site} {before set : CharSet} (ahead : Ahead s items rest)
    (read : leadingHyphens false opened before s = .ok (set, behind)) :
    ∃ left, Ahead behind left rest ∧ behind.index + left.length = s.index + items.length := by
  induction items generalizing s before with
  | nil =>
    rw [leadingHyphens] at read
    split at read
    · rename_i same
      rw [ahead.whole] at same
      cases same
    · cases read
      exact ⟨[], ahead, rfl⟩
  | cons c items ih =>
    rw [leadingHyphens] at read
    split at read
    · rename_i more same
      obtain ⟨later, split, next⟩ := ahead.hyphen (Site.charHead same)
      cases split
      simp only at read
      split at read
      · cases read
      · obtain ⟨left, far, count⟩ := ih next read
        refine ⟨left, far, ?_⟩
        rw [count, (Site.advanceOne same).2, List.length_cons]
        omega
    · cases read
      exact ⟨c :: items, ahead, rfl⟩

theorem classBodyAhead {first : Site} (whole : first.rest = Glob.classBody items ++ ']' :: rest)
    (inside : ']' ∉ items) (some : items ≠ []) (others : items ≠ ['!']) :
    ∃ left, left ≠ [] ∧
      Ahead (if first.char? = Option.some '^' then first.next false else first) left rest := by
  cases items with
  | nil => exact absurd rfl some
  | cons c items =>
    by_cases negated : c = '!'
    · subst negated
      have here : first.char? = Option.some '^' := Site.charHead whole
      refine ⟨items, fun none => others (none ▸ rfl), ?_⟩
      rw [if_pos here]
      exact ⟨(Site.advanceOne whole).1, fun listed => inside (List.mem_cons_of_mem _ listed)⟩
    · have plain : Glob.classBody (c :: items) = (c :: items).flatMap escapedInClass :=
        Glob.classBodyPlain fun same => negated (Option.some.inj same)
      have ahead : Ahead first (c :: items) rest := ⟨plain ▸ whole, inside⟩
      have caret : first.char? ≠ Option.some '^' := by
        intro here
        rcases ahead.begin with slash | ⟨same, other⟩
        · cases here.symm.trans slash
        · cases here.symm.trans same
          exact other (by decide)
      rw [if_neg caret]
      exact ⟨c :: items, some, ahead⟩

theorem openBracketAhead {st later : ClassState}
    (whole : s.rest = '[' :: (Glob.classBody items ++ ']' :: rest)) (inside : ']' ∉ items)
    (some : items ≠ []) (others : items ≠ ['!'])
    (read : openBracket false s st = .ok (later, behind)) :
    ∃ left b, Ahead behind left rest ∧ later.brackets = b :: st.brackets := by
  have first : (s.next false).rest = Glob.classBody items ++ ']' :: rest :=
    (Site.advanceOne whole).1
  obtain ⟨left, present, ahead⟩ := classBodyAhead first inside some others
  have more : (s.next false).atEnd = false := by
    rw [Site.atEnd, first, List.isEmpty_eq_false_iff]
    exact List.append_ne_nil_of_right_ne_nil _ (List.cons_ne_nil _ _)
  unfold openBracket at read
  simp only [bind, Except.bind, more, Bool.false_eq_true, if_false] at read
  generalize (if (s.next false).char? = Option.some '^' then (s.next false).next false
    else s.next false) = body at ahead read
  simp only [ahead.more, Bool.false_eq_true, if_false] at read
  split at read
  · cases read
  · rename_i reached hyphens
    obtain ⟨left', far, count⟩ := leadingHyphensAhead ahead hyphens
    have other : ¬(reached.2.index = body.index ∧ reached.2.char? = Option.some ']') := by
      rintro ⟨still, closing⟩
      cases left' with
      | nil =>
        rw [still] at count
        exact present (List.eq_nil_of_length_eq_zero (by simpa using count.symm))
      | cons c left' =>
        rcases far.begin with slash | ⟨same, plain⟩
        · cases closing.symm.trans slash
        · cases closing.symm.trans same
          exact plain (by decide)
    rw [if_neg other] at read
    cases read
    exact ⟨left', _, far, rfl⟩

theorem readClassBehind (plain : flags.verbose = false)
    (whole : s.rest = '[' :: (Glob.classBody items ++ ']' :: rest)) (inside : ']' ∉ items)
    (some : items ≠ []) (others : items ≠ ['!']) {meant : Meant CharSet}
    (read : readClass flags s = .ok (meant, behind)) : behind.rest = rest := by
  unfold readClass at read
  rw [plain] at read
  cases opened : openBracket false s ⟨[], .none, none⟩ with
  | error fault => rw [opened] at read; cases read
  | ok pair =>
    obtain ⟨later, first⟩ := pair
    rw [opened] at read
    obtain ⟨left, b, ahead, alone⟩ := openBracketAhead whole inside some others opened
    exact classFromAhead plain ahead alone read

end Pattern
end CommentStrip
