import CommentStrip.Proofs.Python.Cut
import CommentStrip.Proofs.Python.LiteralSeam

/-! A token keeps its kind and extent when the text behind it is exchanged for one that begins
alike, or with a line break, or is empty. -/
namespace CommentStrip.Python
open Unicode Text

/- What stands in place of `x` may begin with its first character or with a line break, or be
empty. -/
def Seam (x y : List Char) : Prop :=
  y.head? = x.head? ∨ ∀ c, y.head? = some c → isBreak c = true

theorem Seam.quote {x y : List Char} (seam : Seam x y) {c : Char} (quote : isQuote c = true)
    (first : y.head? = some c) : x.head? = some c := by
  rcases seam with same | breaks
  · exact same.symm.trans first
  · simp [breakNotQuote (breaks c first)] at quote

theorem Seam.stops {x y : List Char} (seam : Seam x y) {p : Char → Bool}
    (breaks : ∀ c, isBreak c = true → p c = false) (ends : ∀ c, x.head? = some c → p c = false) :
    ∀ c, y.head? = some c → p c = false := by
  intro c first
  rcases seam with same | lineBreak
  · exact ends c (same.symm.trans first)
  · exact breaks c (lineBreak c first)

theorem Seam.run {x y s : List Char} (seam : Seam x y) {p : Char → Bool}
    (breaks : ∀ c, isBreak c = true → p c = false)
    (whole : ((s ++ x).takeWhile p).length = s.length) :
    ((s ++ y).takeWhile p).length = s.length :=
  takeWhileWhole whole (seam.stops breaks (takeWhileEnds whole))

theorem loneReturn {rest : List Char} (lone : rest.head? ≠ some '\n') :
    breakWidth ('\r' :: rest) = 1 := by
  unfold breakWidth
  split
  · rename_i same
    simp only [List.cons.injEq] at same
    simp [same.2] at lone
  · rfl
  · rfl
  · rename_i _ other _
    exact (other rest rfl).elim

theorem breakInside {s x y : List Char} (whole : breakWidth (s ++ x) = s.length)
    (nonempty : s.length ≠ 0)
    (lone : s.getLast? = some '\r' → x.head? ≠ some '\n' → y.head? ≠ some '\n') :
    breakWidth (s ++ y) = s.length := by
  unfold breakWidth at whole
  split at whole
  · rename_i rest same
    obtain ⟨c, d, rfl⟩ : ∃ c d, s = [c, d] := by
      match s, whole with
      | [c, d], _ => exact ⟨c, d, rfl⟩
    simp only [List.cons_append, List.cons.injEq] at same
    rw [same.1, same.2.1]
    rfl
  · rename_i rest alone same
    obtain ⟨c, rfl⟩ := List.length_eq_one_iff.mp whole.symm
    simp only [List.cons_append, List.nil_append, List.cons.injEq] at same
    obtain ⟨rfl, rfl⟩ := same
    apply loneReturn
    apply lone rfl
    intro first
    cases x with
    | nil => simp at first
    | cons d x =>
      cases Option.some.inj first
      exact alone x rfl
  · rename_i rest same
    obtain ⟨c, rfl⟩ := List.length_eq_one_iff.mp whole.symm
    simp only [List.cons_append, List.cons.injEq] at same
    rw [same.1]
    rfl
  · exact absurd whole.symm nonempty

def numberChar (hex : Bool) (previous c : Char) : Bool :=
  c.isAlphanum || c == '_' || c == '.' ||
    ((c == '+' || c == '-') && !hex && (previous == 'e' || previous == 'E'))

theorem breakNoNumber {hex : Bool} {previous c : Char} (lineBreak : isBreak c = true) :
    numberChar hex previous c = false := by
  rcases breakIff.mp lineBreak with rfl | rfl <;> rfl

theorem numberTailCons (hex : Bool) (previous c : Char) (rest : List Char) :
    numberTail hex previous (c :: rest) =
      if numberChar hex previous c then numberTail hex c rest + 1 else 0 := rfl

theorem numberEnds {hex : Bool} {previous : Char} {x : List Char}
    (none : numberTail hex previous x = 0) :
    ∀ c, x.head? = some c → numberChar hex previous c = false := by
  intro c first
  cases x with
  | nil => simp at first
  | cons d x =>
    cases Option.some.inj first
    cases taken : numberChar hex previous c with
    | true => simp [numberTailCons, taken] at none
    | false => rfl

theorem numberInside {hex : Bool} {previous : Char} {s x y : List Char} (seam : Seam x y)
    (whole : numberTail hex previous (s ++ x) = s.length) :
    numberTail hex previous (s ++ y) = s.length := by
  induction s generalizing previous with
  | nil =>
    cases y with
    | nil => rfl
    | cons c y =>
      have other : numberChar hex previous c = false :=
        seam.stops (fun _ => breakNoNumber) (numberEnds whole) c rfl
      simp [numberTailCons, other]
  | cons c s ih =>
    simp only [List.cons_append, numberTailCons] at whole ⊢
    split at whole
    · rename_i taken
      simp only [List.length_cons, Nat.add_right_cancel_iff] at whole
      rw [if_pos taken, ih whole, List.length_cons]
    · simp at whole

theorem alnumNumber {hex : Bool} {previous c : Char} (alnum : c.isAlphanum = true) :
    numberChar hex previous c = true := by
  simp [numberChar, alnum]

theorem hexNever {c mark : Char} (letter : mark.isAlphanum = true) {x : List Char}
    (ends : ∀ d, x.head? = some d → d.isAlphanum = false) :
    startsWith ['0', mark] (c :: x) = false := by
  rw [Bool.eq_false_iff]
  intro starts
  obtain ⟨rest, same⟩ := startsWithIff.mp starts
  simp only [List.cons_append, List.nil_append, List.cons.injEq] at same
  have apart := ends mark (by rw [same.2]; rfl)
  simp [letter] at apart

theorem breakNoAlnum {c : Char} (lineBreak : isBreak c = true) : c.isAlphanum = false := by
  have apart := breakNotName lineBreak
  simp only [isNameChar, Bool.or_eq_false_iff] at apart
  exact apart.1.1

theorem markInside {c mark : Char} {s x y : List Char} (letter : mark.isAlphanum = true)
    (seam : Seam x y) (whole : numberMore c (s ++ x) = s.length) :
    startsWith ['0', mark] (c :: (s ++ y)) = startsWith ['0', mark] (c :: (s ++ x)) := by
  cases s with
  | cons d s =>
    have short : ['0', mark].length ≤ (c :: d :: s).length := by simp
    exact (startsWithInside _ short y).trans (startsWithInside _ short x).symm
  | nil =>
    have ends (d : Char) (first : x.head? = some d) : d.isAlphanum = false := by
      cases alnum : d.isAlphanum with
      | false => rfl
      | true => simpa [alnumNumber alnum] using numberEnds whole d first
    rw [List.nil_append, List.nil_append, hexNever letter ends,
      hexNever letter (seam.stops (fun _ => breakNoAlnum) ends)]

theorem numberMoreInside {c : Char} {s x y : List Char} (seam : Seam x y)
    (whole : numberMore c (s ++ x) = s.length) : numberMore c (s ++ y) = s.length := by
  have marks (mark : Char) (letter : mark.isAlphanum = true) := markInside letter seam whole
  simp only [numberMore, marks 'x' rfl, marks 'X' rfl] at whole ⊢
  exact numberInside seam whole

def State.Alike (a b : State) : Prop :=
  a.brackets.map Prod.fst = b.brackets.map Prod.fst ∧ a.content = b.content

theorem State.Alike.breakKind {a b : State} (alike : a.Alike b) : breakKind a = breakKind b := by
  have closed : a.brackets.isEmpty = b.brackets.isEmpty := by
    rw [← List.isEmpty_map (f := Prod.fst), alike.1, List.isEmpty_map]
  simp [Python.breakKind, closed, alike.2]

theorem breakPositive {c : Char} (lineBreak : isBreak c = true) (rest : List Char) :
    1 ≤ breakWidth (c :: rest) := by
  rcases breakIff.mp lineBreak with rfl | rfl
  · exact Nat.le_refl 1
  · unfold breakWidth
    split <;> simp_all

theorem breakWhole {c : Char} (lineBreak : isBreak c = true) {s x : List Char}
    (whole : breakWidth (c :: (s ++ x)) - 1 = s.length) :
    breakWidth (c :: s ++ x) = (c :: s).length := by
  have positive := breakPositive lineBreak (s ++ x)
  rw [List.cons_append, List.length_cons]
  omega

theorem literalPositive {affix : Affix} {start offset : Nat} {c : Char} {rest : List Char}
    {width : Nat} (closed : literalWidth affix start offset (c :: rest) = .ok width) :
    1 ≤ width := by
  simp only [literalWidth] at closed
  generalize closeAll _ _ _ = result at closed
  cases result with
  | error e => simp [Except.map] at closed
  | ok n =>
    simp only [Except.map, Except.ok.injEq] at closed
    omega

theorem startsNumberInside {c : Char} {s x y : List Char} (first : startsNumber c (s ++ x) = true)
    (whole : numberMore c (s ++ x) = s.length) : startsNumber c (s ++ y) = true := by
  cases s with
  | cons d s => exact first
  | nil =>
    simp only [startsNumber, Bool.or_eq_true, Bool.and_eq_true, List.nil_append] at first ⊢
    rcases first with digit | ⟨-, digit⟩
    · exact .inl digit
    · cases x with
      | nil => simp at digit
      | cons d x =>
        have alnum : d.isAlphanum = true := by
          simp only [List.head?_cons, Option.any_some] at digit
          simp [Char.isAlphanum, digit]
        simpa [alnumNumber alnum] using numberEnds whole d rfl

theorem startsNumberSeam {c : Char} {x y : List Char} (seam : Seam x y)
    (alone : startsNumber c x = false) : startsNumber c y = false := by
  simp only [startsNumber, Bool.or_eq_false_iff, Bool.and_eq_false_imp] at alone ⊢
  refine ⟨alone.1, fun point => ?_⟩
  have ends : ∀ d, y.head? = some d → d.isDigit = false := by
    apply seam.stops
    · intro d lineBreak
      have apart := breakNoAlnum lineBreak
      simp only [Char.isAlphanum, Bool.or_eq_false_iff] at apart
      exact apart.2
    · intro d first
      simpa [first] using alone.2 point
  cases y with
  | nil => rfl
  | cons d y => simp [ends d rfl]

theorem aloneInside {c : Char} {s x y : List Char} (seam : Seam x y)
    (run : (s ++ x).takeWhile isNameChar = s) (run' : (s ++ y).takeWhile isNameChar = s)
    (alone : prefixesLiteral c (s ++ x) = false) : prefixesLiteral c (s ++ y) = false := by
  simp only [prefixesLiteral, behindWord, wordOf, run, run', List.drop_left] at alone ⊢
  cases word : isStringPrefix (c :: s) with
  | false => simp
  | true =>
    simp only [word, Bool.and_true] at alone ⊢
    have ends : ∀ d, y.head? = some d → isQuote d = false := by
      apply seam.stops
      · exact fun _ => breakNotQuote
      · intro d first
        simpa [first] using alone
    cases y with
    | nil => rfl
    | cons d y => simp [ends d rfl]

theorem prefixedInside {c : Char} {s x y : List Char} {offset width : Nat} (seam : Seam x y)
    (quoted : prefixesLiteral c (s ++ x) = true)
    (closed : literalWidth (.ofWord (wordOf c (s ++ x))) offset
      (offset + byteLength (wordOf c (s ++ x))) (behindWord (s ++ x)) = .ok width)
    (whole : ((s ++ x).takeWhile isNameChar).length + width = s.length) (offset' : Nat) :
    (s ++ y).takeWhile isNameChar = (s ++ x).takeWhile isNameChar ∧
      prefixesLiteral c (s ++ y) = true ∧
      literalWidth (.ofWord (wordOf c (s ++ y))) offset'
        (offset' + byteLength (wordOf c (s ++ y))) (behindWord (s ++ y)) = .ok width := by
  have positive : 1 ≤ width := by
    cases behind : behindWord (s ++ x) with
    | nil => simp [prefixesLiteral, behind] at quoted
    | cons d later =>
      rw [behind] at closed
      exact literalPositive closed
  have run := takeWhileInside (show ((s ++ x).takeWhile isNameChar).length < s.length by omega) y
  simp only [prefixesLiteral, behindWord, wordOf, run] at quoted closed ⊢
  generalize (s ++ x).takeWhile isNameChar = word at quoted closed whole ⊢
  rw [List.drop_append_of_le_length (by omega)] at quoted closed ⊢
  cases behind : s.drop word.length with
  | nil =>
    have length := congrArg List.length behind
    simp only [List.length_drop, List.length_nil] at length
    omega
  | cons d later =>
    have length := congrArg List.length behind
    simp only [List.length_drop, List.length_cons] at length
    obtain rfl : width = later.length + 1 := by omega
    simp only [behind, List.cons_append, List.head?_cons, Option.any_some,
      Bool.and_eq_true] at quoted closed ⊢
    exact ⟨trivial, quoted, literalInside closed offset' _ (seam.quote quoted.1)⟩

def TokenKind.endsLine (kind : TokenKind) : Prop :=
  kind = .newline ∨ kind = .nl ∨ kind = .continuation

theorem breakEndsLine (st : State) : (breakKind st).endsLine := by
  unfold breakKind
  split
  · exact .inl rfl
  · exact .inr (.inl rfl)

theorem nextInside {st st' : State} {offset : Nat} {c : Char} {s x y : List Char} {found : Next}
    (taken : next st offset c (s ++ x) = .ok found) (whole : found.more = s.length)
    (seam : Seam x y)
    (lone : found.kind.endsLine → (c :: s).getLast? = some '\r' → x.head? ≠ some '\n' →
      y.head? ≠ some '\n')
    (alike : st.Alike st') (offset' : Nat) :
    ∃ other, next st' offset' c (s ++ y) = .ok other ∧ other.kind = found.kind ∧
      other.more = found.more ∧ found.state.Alike other.state := by
  cases cutNext taken with
  | blank first =>
    have run := seam.run (fun _ => breakNotBlank) whole
    exact ⟨_, nextCut (.blank first), rfl, run.trans whole.symm, alike⟩
  | lineBreak first =>
    have width : breakWidth (c :: s ++ y) = (c :: s).length :=
      breakInside (breakWhole first whole) (by simp) (lone (breakEndsLine st))
    refine ⟨_, nextCut (.lineBreak first), alike.breakKind.symm, ?_, alike.1, rfl⟩
    show breakWidth (c :: s ++ y) - 1 = _
    rw [width, whole, List.length_cons, Nat.add_sub_cancel]
  | comment first =>
    have run := seam.run (p := fun c => !isBreak c) (fun c => by simp) whole
    exact ⟨_, nextCut (.comment first), rfl, run.trans whole.symm, alike⟩
  | continuation first behind =>
    simp only at whole
    rw [whole] at behind
    have run := breakInside (y := y) whole behind (fun last => lone (.inr (.inr rfl)) (by
      rw [List.getLast?_cons, last]
      rfl))
    exact ⟨_, nextCut (.continuation first (by rw [run]; exact behind)), rfl,
      run.trans whole.symm, alike⟩
  | literal first closed =>
    have positive := literalPositive closed
    simp only at whole
    have same := literalInside (s := s) (x := x) (y := y) (by rw [closed]; congr 1; omega) offset'
      offset' (seam.quote first)
    refine ⟨_, nextCut (.literal first same), rfl, ?_, alike.1, rfl⟩
    simp only
    omega
  | number first =>
    have same := numberMoreInside seam whole
    exact ⟨_, nextCut (.number (startsNumberInside first whole)), rfl, same.trans whole.symm,
      alike.1, rfl⟩
  | @prefixed width first word quoted closed =>
    obtain ⟨run', quoted', closed'⟩ := prefixedInside seam quoted closed (by
      simp only [wordOf, List.length_cons] at whole
      omega) offset'
    refine ⟨_, nextCut (.prefixed first word quoted' closed'), rfl, ?_, alike.1, rfl⟩
    simp only [wordOf, run']
  | name first word alone =>
    simp only at whole
    have run := takeWhileAll whole
    have run' := takeWhileAll (seam.run (fun _ => breakNotName) whole)
    refine ⟨_, nextCut (.name first word (aloneInside seam run run' alone)), rfl, ?_, alike.1, rfl⟩
    simp only [run, run']
  | opening first =>
    obtain rfl := List.length_eq_zero_iff.mp whole.symm
    exact ⟨_, nextCut (.opening first), rfl, rfl, by simp [alike.1], rfl⟩
  | @closing opening opened outer first brackets closes =>
    obtain rfl := List.length_eq_zero_iff.mp whole.symm
    have same := alike.1
    rw [brackets] at same
    cases brackets' : st'.brackets with
    | nil => simp [brackets'] at same
    | cons innermost outer' =>
      simp only [brackets', List.map_cons, List.cons.injEq] at same
      obtain ⟨opening', opened'⟩ := innermost
      simp only at same
      rw [same.1] at closes
      exact ⟨_, nextCut (.closing first brackets' closes), rfl, rfl, same.2, rfl⟩
  | mark first alone =>
    obtain rfl := List.length_eq_zero_iff.mp whole.symm
    exact ⟨_, nextCut (.mark first (startsNumberSeam seam alone)), rfl, rfl, alike.1, rfl⟩

end CommentStrip.Python
