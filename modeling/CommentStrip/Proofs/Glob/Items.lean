import CommentStrip.Proofs.Glob.ClassBody

/-! What the items of a bracket stand for: characters as they are, whatever they mean elsewhere, and
ranges of letters or digits. -/
namespace CommentStrip.Glob
open Pattern (Ahead CharSet ClassState Bracket Site Meant)

/- The ends of a range are letters of one case or digits, and in their order. -/
structure Ordered (low high : Char) : Prop where
  alike : (low.isLower ∧ high.isLower) ∨ (low.isUpper ∧ high.isUpper) ∨ (low.isDigit ∧ high.isDigit)
  order : low.toNat ≤ high.toNat

inductive Item where
  | one (c : Char) (proper : c ≠ ']' ∧ c ≠ '-')
  | range (low high : Char) (ordered : Ordered low high)

def Item.text : Item → List Char
  | .one c _ => [c]
  | .range low high _ => [low, '-', high]

def Item.holds : Item → Char → Bool
  | .one d _, c => c == d
  | .range low high _, c => low.toNat ≤ c.toNat && c.toNat ≤ high.toNat

def Item.set : Item → CharSet
  | .one c _ => .single c
  | .range low high _ => .range low high

theorem itemSet (item : Item) (c : Char) : item.set.mem c = item.holds c := by
  cases item with
  | one d proper =>
    rw [Bool.eq_iff_iff]
    simp [Item.set, Item.holds, CharSet.memSingle]
  | range low high ordered => rfl

structure Class where
  negated : Bool
  first : Item
  more : List Item
  signed : negated = false → first.text.head? ≠ some '!'

namespace Class

def items (k : Class) : List Item := k.first :: k.more

def text (k : Class) : List Char :=
  if k.negated then '!' :: k.items.flatMap Item.text else k.items.flatMap Item.text

def holds (k : Class) (c : Char) : Bool := k.negated != k.items.any (·.holds c)

end Class

theorem Ordered.alphanumeric {low high : Char} (ordered : Ordered low high) :
    low.isAlphanum = true ∧ high.isAlphanum = true := by
  have kinds (c : Char) : c.isAlphanum = (c.isUpper || c.isLower || c.isDigit) := rfl
  rw [kinds, kinds]
  rcases ordered.alike with ⟨first, last⟩ | ⟨first, last⟩ | ⟨first, last⟩ <;> simp [first, last]

theorem alphanumericPlain {c : Char} (alphanumeric : c.isAlphanum = true) :
    c ∉ [']', '-', '\\', '[', '&', '~', '^'] := by
  intro listed
  have none : [']', '-', '\\', '[', '&', '~', '^'].all (fun c => !c.isAlphanum) = true := by decide
  simpa [alphanumeric] using List.all_eq_true.mp none c listed

theorem itemText (item : Item) :
    ∃ c more, item.text = c :: more ∧ c ≠ '-' ∧ ']' ∉ item.text := by
  cases item with
  | one c proper => exact ⟨c, [], rfl, proper.2, by simpa [Item.text] using proper.1.symm⟩
  | range low high ordered =>
    obtain ⟨first, last⟩ := ordered.alphanumeric
    have plain := alphanumericPlain first
    have plain' := alphanumericPlain last
    simp only [List.mem_cons, not_or] at plain plain'
    refine ⟨low, ['-', high], rfl, plain.2.1, ?_⟩
    simp [Item.text, Ne.symm plain.1, Ne.symm plain'.1]

theorem itemsInside (items : List Item) : ']' ∉ items.flatMap Item.text := by
  intro listed
  obtain ⟨item, -, inside⟩ := List.mem_flatMap.mp listed
  obtain ⟨-, -, -, -, outside⟩ := itemText item
  exact outside inside

theorem itemsHead (items : List Item) : (items.flatMap Item.text).head? ≠ some '-' := by
  cases items with
  | nil => nofun
  | cons item items =>
    obtain ⟨c, more, split, other, -⟩ := itemText item
    rw [List.flatMap_cons, split, List.cons_append, List.head?_cons]
    exact fun same => other (Option.some.inj same)

theorem Class.textCases (k : Class) :
    (k.negated = true ∧ k.text = '!' :: k.items.flatMap Item.text) ∨
      (k.negated = false ∧ k.text = k.items.flatMap Item.text ∧ k.text.head? ≠ some '!') := by
  unfold text
  cases negated : k.negated with
  | true => exact .inl ⟨rfl, rfl⟩
  | false =>
    obtain ⟨c, more, split, -⟩ := itemText k.first
    refine .inr ⟨rfl, rfl, ?_⟩
    have signed := k.signed negated
    rw [split] at signed
    simpa [items, split] using signed

theorem Class.textInside (k : Class) : ']' ∉ k.text := by
  have inside := itemsInside k.items
  rcases k.textCases with ⟨-, split⟩ | ⟨-, split, -⟩ <;> rw [split]
  · exact fun listed => (List.mem_cons.mp listed).elim (by decide) inside
  · exact inside

theorem Class.itemsSome (k : Class) : k.items.flatMap Item.text ≠ [] := by
  obtain ⟨c, more, split, -⟩ := itemText k.first
  simp [items, split]

theorem Class.textSome (k : Class) : k.text ≠ [] ∧ k.text ≠ ['!'] := by
  have some := k.itemsSome
  rcases k.textCases with ⟨-, split⟩ | ⟨-, split, unsigned⟩
  · rw [split]
    exact ⟨List.cons_ne_nil _ _, fun same => some (List.cons.inj same).2⟩
  · exact ⟨split ▸ some, fun same => unsigned (by rw [same]; rfl)⟩

end CommentStrip.Glob

namespace CommentStrip.Pattern
open Glob (escapedInClass)
variable {s behind : Site} {chars rest : List Char} {c : Char} {st : ClassState} {b : Bracket}

theorem operatorFirst {op : ClassOp} (found : classOperator s = some op) :
    s.char? = some '&' ∨ s.char? = some '-' ∨ s.char? = some '~' := by
  unfold classOperator at found
  split at found
  · exact .inl (Site.startsTwice rfl (by assumption)).1
  · split at found
    · exact .inr (.inl (Site.startsTwice rfl (by assumption)).1)
    · split at found
      · exact .inr (.inr (Site.startsTwice rfl (by assumption)).1)
      · cases found

theorem Ahead.noOperator (ahead : Ahead s (c :: chars) rest) (other : c ≠ '-') :
    classOperator s = none := by
  rw [Option.eq_none_iff_forall_ne_some]
  intro op found
  have first := operatorFirst found
  rcases ahead.begin with slash | ⟨same, plain⟩
  · rw [slash] at first
    revert first
    decide
  · rw [same] at first
    rcases first with here | here | here <;> obtain rfl := Option.some.inj here
    · exact plain (by decide)
    · exact other rfl
    · exact plain (by decide)

theorem itemStep (ahead : Ahead s (c :: chars) rest) (other : c ≠ '-') (alone : st.brackets = [b]) :
    classStep .initial s st = (classRange .initial s st).map .inl := by
  obtain ⟨mark, here, opening, closing⟩ := ahead.noBracket
  unfold classStep
  rw [alone, here]
  simp only [if_neg opening, if_neg closing, ahead.noOperator other]

theorem Ahead.char (ahead : Ahead s chars rest) : ∃ mark, s.char? = some mark := by
  rw [Site.char?, ahead.whole]
  cases chars.flatMap escapedInClass with
  | nil => exact ⟨']', rfl⟩
  | cons mark more => exact ⟨mark, rfl⟩

theorem Ahead.notHyphen (ahead : Ahead s chars rest) (first : chars.head? ≠ some '-') :
    s.char? ≠ some '-' := by
  intro here
  obtain ⟨later, rfl, -⟩ := ahead.hyphen here
  exact first rfl

theorem oneRange (ahead : Ahead s (c :: chars) rest) (next : chars.head? ≠ some '-') :
    classRange .initial s st =
      .ok (st.add (.single c) none, s.advance (escapedInClass c).length) := by
  have later := ahead.later
  obtain ⟨mark, here⟩ := later.char
  have other : mark ≠ '-' := fun same => later.notHyphen next (same ▸ here)
  unfold classRange
  simp only [initialPlain, bind, Except.bind, ahead.atom, Site.spacesPlain, here,
    bne_iff_ne.mpr other, Bool.true_or, if_true]
  rfl

theorem unescaped (alphanumeric : c.isAlphanum = true) : escapedInClass c = [c] := by
  have plain := Glob.alphanumericPlain alphanumeric
  refine if_neg fun listed => plain ?_
  exact List.mem_cons_of_mem _ (List.mem_cons_of_mem _ listed)

theorem twoRange {low high : Char} (ordered : Glob.Ordered low high)
    (ahead : Ahead s (low :: '-' :: high :: chars) rest) :
    ∃ behind, classRange .initial s st = .ok (st.add (.range low high) none, behind) ∧
      Ahead behind chars rest := by
  obtain ⟨-, last⟩ := ordered.alphanumeric
  have plain := Glob.alphanumericPlain last
  simp only [List.mem_cons, not_or] at plain
  have hyphen := ahead.later
  have second : Ahead ((s.advance (escapedInClass low).length).advance 1) (high :: chars) rest :=
    hyphen.later
  have here : (s.advance (escapedInClass low).length).char? = some '-' := Site.charHead hyphen.first
  have next : ((s.advance (escapedInClass low).length).advance 1).char? = some high := by
    have whole := second.first
    rw [unescaped last] at whole
    exact Site.charHead whole
  refine ⟨_, ?_, second.later⟩
  unfold classRange
  simp only [initialPlain, bind, Except.bind, ahead.atom, Site.spacesPlain, here, Site.peek,
    Site.nextPlain, next]
  rw [if_neg (by simp [plain.1, plain.2.1])]
  simp only [second.more, second.atom, boundary, Bool.false_eq_true, if_false,
    if_neg (Nat.not_lt.mpr ordered.order)]
  rfl

theorem itemRead (item : Glob.Item) (ahead : Ahead s (item.text ++ chars) rest)
    (next : chars.head? ≠ some '-') (alone : st.brackets = [b]) :
    ∃ behind, classStep .initial s st = .ok (.inl (st.add item.set none, behind)) ∧
      Ahead behind chars rest := by
  cases item with
  | one c proper =>
    have ahead : Ahead s (c :: chars) rest := ahead
    rw [itemStep ahead proper.2 alone, oneRange ahead next]
    exact ⟨_, rfl, ahead.later⟩
  | range low high ordered =>
    have ahead : Ahead s (low :: '-' :: high :: chars) rest := ahead
    have plain := Glob.alphanumericPlain ordered.alphanumeric.1
    simp only [List.mem_cons, not_or] at plain
    obtain ⟨behind, ranged, later⟩ := @twoRange s chars rest st low high ordered ahead
    rw [itemStep ahead plain.2.1 alone, ranged]
    exact ⟨behind, rfl, later⟩

theorem Ahead.shorter {item : Glob.Item} (ahead : Ahead s (item.text ++ chars) rest)
    (later : Ahead behind chars rest) : behind.rest.length < s.rest.length := by
  obtain ⟨c, more, split, -⟩ := Glob.itemText item
  rw [ahead.whole, later.whole, split]
  rcases escapedCases c with ⟨escaped, -⟩ | ⟨plain, -⟩ <;>
    simp only [List.cons_append, List.flatMap_cons, List.flatMap_append, List.length_append, *,
      List.length_cons, List.length_nil] <;> omega

theorem addSound (st : ClassState) (set : CharSet) (sound : st.fault = none) :
    (st.add set none).fault = none := by
  simp [ClassState.add, sound]

/- The induction is on the items: the bracket that was opened is closed with the items before it. -/
theorem itemsRead {items : List Glob.Item} (ahead : Ahead s (items.flatMap Glob.Item.text) rest)
    (alone : st.brackets = [b]) (idle : b.pending = none) (sound : st.fault = none) :
    ∃ set behind, classFrom .initial s st = .ok (⟨.union b.outer set, none⟩, behind) ∧
      ∀ c, set.mem c = (b.negated != (st.items.mem c || items.any (·.holds c))) := by
  induction items generalizing s st with
  | nil =>
    have last : s.rest = ']' :: rest := ahead.whole
    refine ⟨finishSet .initial b.negated st.items, s.advance 1, ?_, fun c => ?_⟩
    · rw [classFrom, initialPlain, Site.spacesPlain, classStep,
        alone, Site.charHead last]
      simp [closeBracket, idle, combine, ClassState.add, sound, Flags.initial]
    · cases negated : b.negated <;> simp [finishSet, closeCase, Flags.initial, CharSet.mem]
  | cons item items ih =>
    rw [List.flatMap_cons] at ahead
    obtain ⟨next, step, later⟩ := itemRead item ahead (Glob.itemsHead items) alone
    obtain ⟨set, behind, read, means⟩ :=
      @ih next (st.add item.set none) later alone (addSound st _ sound)
    refine ⟨set, behind, ?_, fun c => ?_⟩
    · rw [classFrom, initialPlain, Site.spacesPlain, step]
      simp only [if_pos (ahead.shorter later)]
      exact read
    · rw [means, List.any_cons, ← Glob.itemSet]
      simp [ClassState.add, CharSet.mem, Bool.or_assoc]

theorem Ahead.unmarked (ahead : Ahead s chars rest) (filled : chars ≠ []) (mark : Char)
    (special : mark ∈ ['^', ']']) : s.char? ≠ some mark := by
  obtain ⟨c, more, rfl⟩ := List.exists_cons_of_ne_nil filled
  rcases ahead.begin with slash | ⟨same, other⟩
  · rw [slash]
    rintro ⟨⟩
    revert special
    decide
  · rw [same]
    rintro ⟨⟩
    exact other (List.mem_append_right ['\\', '[', '&', '~'] special)

theorem classAhead (k : Glob.Class) (whole : s.rest = Glob.classBody k.text ++ ']' :: rest) :
    (s.char? = some '^' ↔ k.negated = true) ∧
      Ahead (if s.char? = some '^' then s.next false else s) (k.items.flatMap Glob.Item.text)
        rest := by
  have inside := Glob.itemsInside k.items
  rcases k.textCases with ⟨negated, split⟩ | ⟨negated, split, unsigned⟩
  · rw [split, Glob.classBody] at whole
    have here := Site.charHead whole
    rw [if_pos here]
    exact ⟨iff_of_true here negated, (Site.advanceOne whole).1, inside⟩
  · rw [Glob.classBodyPlain unsigned, split] at whole
    have ahead : Ahead s (k.items.flatMap Glob.Item.text) rest := ⟨whole, inside⟩
    have plain := ahead.unmarked k.itemsSome '^' (by decide)
    rw [if_neg plain]
    exact ⟨iff_of_false plain (by simp [negated]), ahead⟩

theorem noHyphens {opened : Site} {set : CharSet} (first : s.char? ≠ some '-') :
    leadingHyphens false opened set s = .ok (set, s) := by
  rw [leadingHyphens]
  split
  · rename_i more same
    exact absurd (Site.charHead same) first
  · rfl

theorem classOpens (k : Glob.Class)
    (whole : s.rest = '[' :: (Glob.classBody k.text ++ ']' :: rest)) :
    ∃ b inside, openBracket false s ⟨[], .none, none⟩ = .ok (⟨[b], .none, none⟩, inside) ∧
      b.negated = k.negated ∧ b.pending = none ∧ b.outer = .none ∧
      Ahead inside (k.items.flatMap Glob.Item.text) rest := by
  have first : (s.next false).rest = Glob.classBody k.text ++ ']' :: rest :=
    (Site.advanceOne whole).1
  have more : (s.next false).atEnd = false := by
    rw [Site.atEnd, first, List.isEmpty_eq_false_iff]
    exact List.append_ne_nil_of_right_ne_nil _ (List.cons_ne_nil _ _)
  obtain ⟨sign, ahead⟩ := classAhead k first
  have hyphen := ahead.notHyphen (Glob.itemsHead k.items)
  have closing := ahead.unmarked k.itemsSome ']' (by decide)
  unfold openBracket
  simp only [bind, Except.bind, more, Bool.false_eq_true, if_false]
  generalize (if (s.next false).char? = some '^' then (s.next false).next false
    else s.next false) = inside at ahead hyphen closing
  simp only [ahead.more, Bool.false_eq_true, if_false, noHyphens hyphen, closing, and_false]
  exact ⟨_, inside, rfl, by rw [Bool.eq_iff_iff, decide_eq_true_eq, sign], rfl, rfl, ahead⟩

theorem classRead (k : Glob.Class)
    (whole : s.rest = '[' :: (Glob.classBody k.text ++ ']' :: rest)) :
    ∃ set behind, readClass .initial s = .ok (⟨set, none⟩, behind) ∧ behind.rest = rest ∧
      ∀ c, set.mem c = k.holds c := by
  obtain ⟨b, inside, opened, negated, idle, outer, ahead⟩ := classOpens k whole
  obtain ⟨set, behind, read, means⟩ :=
    @itemsRead inside rest ⟨[b], .none, none⟩ b k.items ahead rfl idle rfl
  have taken : readClass .initial s = .ok (⟨.union b.outer set, none⟩, behind) := by
    rw [readClass, initialPlain, opened]
    exact read
  obtain ⟨some, others⟩ := k.textSome
  refine ⟨_, behind, taken, readClassBehind rfl whole k.textInside some others taken, fun c => ?_⟩
  rw [CharSet.mem, outer, means, negated]
  simp [CharSet.mem, Glob.Class.holds]

end CommentStrip.Pattern
