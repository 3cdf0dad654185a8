import CommentStrip.Proofs.Python.TokenForms

/-! Where a literal without fields ends, told by its text alone: at the first closing mark that an
even number of backslashes precedes. -/
namespace CommentStrip.Python
open Unicode Text

def slashRun (front : List Char) : Nat := (front.reverse.takeWhile (· == '\\')).length

/- The mark stands behind `inner`, where no backslash takes it, and at no earlier such place. -/
structure EndsAt (mark body inner behind : List Char) : Prop where
  split : body = inner ++ (mark ++ behind)
  free : slashRun inner % 2 = 0
  first : ∀ front back, body = front ++ (mark ++ back) → slashRun front % 2 = 0 →
    inner.length ≤ front.length

def Taken (front : List Char) (c : Char) : Prop :=
  slashRun front % 2 = 1 ∨
    (c = '\n' ∧ ∃ before, front = before ++ ['\r'] ∧ slashRun before % 2 = 1)

/- A line break that no backslash takes. -/
def HoldsBreak (inner : List Char) : Prop :=
  ∃ front c back, inner = front ++ c :: back ∧ isBreak c = true ∧ ¬ Taken front c

inductive Passes (back : List Char) : List Char → Prop where
  | plain {c} (normal : c ≠ '\\') : Passes back [c]
  | pair {c} (alone : c = '\r' → back.head? ≠ some '\n') : Passes back ['\\', c]
  | both : Passes back ['\\', '\r', '\n']

structure Within (quote : Char) (triple : Bool) (back u : List Char) : Prop where
  passes : Passes back u
  unmarked : ∀ rest, u ++ back ≠ delimiter quote triple ++ rest
  inLine : ∀ c, u = [c] → isBreak c = true → triple = true

theorem slashRunLength (front : List Char) : slashRun front ≤ front.length := by
  simpa [slashRun] using (List.takeWhile_prefix (p := (· == '\\')) (l := front.reverse)).length_le

theorem slashRunCons (c : Char) (front : List Char) :
    slashRun (c :: front) =
      if slashRun front = front.length ∧ c = '\\' then front.length + 1 else slashRun front := by
  have whole : slashRun front = front.length ↔
      (front.reverse.takeWhile (· == '\\')).length = front.reverse.length := by
    rw [slashRun, List.length_reverse]
  simp only [slashRun, List.reverse_cons, List.takeWhile_append]
  by_cases all : (front.reverse.takeWhile (· == '\\')).length = front.reverse.length
  · by_cases slash : c = '\\' <;> simp_all
  · simp_all

theorem slashRunPlain {c : Char} (normal : c ≠ '\\') (front : List Char) :
    slashRun (c :: front) = slashRun front := by
  rw [slashRunCons, if_neg fun both => normal both.2]

theorem slashRunPair (c : Char) (front : List Char) :
    slashRun ('\\' :: c :: front) % 2 = slashRun front % 2 := by
  have bound := slashRunLength front
  by_cases slash : c = '\\'
  · subst slash
    simp only [slashRunCons, and_true, List.length_cons]
    split <;> split <;> omega
  · rw [slashRunCons, slashRunPlain slash, List.length_cons, if_neg (by omega)]

theorem delimiterFirst (quote : Char) (triple : Bool) :
    ∃ more, delimiter quote triple = quote :: more := by
  cases triple <;> exact ⟨_, rfl⟩

section
variable {back u : List Char} (passes : Passes back u)
include passes

theorem passesFilled : u ≠ [] := by
  cases passes <;> simp

theorem passesRun (front : List Char) : slashRun (u ++ front) % 2 = slashRun front % 2 := by
  cases passes with
  | plain normal => exact congrArg (· % 2) (slashRunPlain normal front)
  | pair alone => exact slashRunPair _ front
  | both =>
    have pair : slashRun ('\\' :: '\r' :: '\n' :: front) % 2 = slashRun ('\n' :: front) % 2 :=
      slashRunPair '\r' ('\n' :: front)
    rwa [slashRunPlain (by decide) front] at pair

theorem passesInside {front later : List Char} {c : Char} (inside : u = front ++ c :: later) :
    front = [] ∨ Taken front c := by
  cases passes with
  | plain normal =>
    rcases front with _ | ⟨d, front⟩
    · exact .inl rfl
    · simp at inside
  | pair alone =>
    rcases front with _ | ⟨d, _ | ⟨e, front⟩⟩
    · exact .inl rfl
    · obtain ⟨rfl, -⟩ := List.cons.inj inside
      exact .inr (.inl rfl)
    · simp at inside
  | both =>
    rcases front with _ | ⟨d, _ | ⟨e, _ | ⟨f, front⟩⟩⟩
    · exact .inl rfl
    · obtain ⟨rfl, -⟩ := List.cons.inj inside
      exact .inr (.inl rfl)
    · simp only [List.cons_append, List.nil_append, List.cons.injEq] at inside
      obtain ⟨rfl, rfl, rfl, -⟩ := inside
      exact .inr (.inr ⟨rfl, ['\\'], rfl, rfl⟩)
    · simp at inside

theorem passesFirst {c : Char} {later : List Char} (first : u = c :: later) (normal : c ≠ '\\') :
    later = [] := by
  cases passes with
  | plain => exact (List.cons.inj first).2.symm
  | pair alone => exact absurd (List.cons.inj first).1.symm normal
  | both => exact absurd (List.cons.inj first).1.symm normal

theorem passesTaken {front later : List Char} {c : Char} (split : back = front ++ c :: later) :
    Taken (u ++ front) c ↔ Taken front c := by
  rw [Taken, Taken, passesRun passes]
  refine or_congr_right (and_congr_right fun feed => ?_)
  rcases List.eq_nil_or_concat front with rfl | ⟨front, d, rfl⟩
  · refine iff_of_false ?_ (by simp)
    rintro ⟨before, ends, odd⟩
    cases passes with
    | plain normal =>
      obtain ⟨rfl, -⟩ := List.append_inj' (show [] ++ [_] = before ++ _ from ends) rfl
      simp [slashRun] at odd
    | pair alone =>
      obtain ⟨rfl, same⟩ := List.append_inj' (show ['\\'] ++ [_] = before ++ _ from ends) rfl
      obtain rfl := (List.cons.inj same).1
      exact alone rfl (by rw [split, feed]; rfl)
    | both =>
      obtain ⟨-, same⟩ := List.append_inj' (show ['\\', '\r'] ++ [_] = before ++ _ from ends) rfl
      cases same
  · simp only [List.concat_eq_append]
    constructor
    · rintro ⟨before, ends, odd⟩
      rw [← List.append_assoc] at ends
      obtain ⟨rfl, same⟩ := List.append_inj' ends rfl
      exact ⟨front, by rw [same], passesRun passes front ▸ odd⟩
    · rintro ⟨before, ends, odd⟩
      obtain ⟨rfl, same⟩ := List.append_inj' ends rfl
      exact ⟨u ++ front, by rw [same, List.append_assoc], (passesRun passes front).trans odd⟩

theorem passesHolds {inner later : List Char} (split : back = inner ++ later) :
    HoldsBreak (u ++ inner) ↔ (∃ c, u = [c] ∧ isBreak c = true) ∨ HoldsBreak inner := by
  have behind {front rest : List Char} {c : Char} (cut : inner = front ++ c :: rest) :
      Taken (u ++ front) c ↔ Taken front c := by
    have whole : back = front ++ c :: (rest ++ later) := by simp [split, cut]
    exact passesTaken passes whole
  constructor
  · rintro ⟨front, c, rest, cut, lineBreak, free⟩
    rcases List.append_eq_append_iff.mp cut with ⟨more, rfl, inside⟩ | ⟨more, outside, inside⟩
    · exact .inr ⟨more, c, rest, inside, lineBreak, (not_congr (behind inside)).mp free⟩
    · cases more with
      | nil =>
        rw [List.append_nil] at outside
        subst outside
        have cut : inner = [] ++ c :: rest := inside.symm
        refine .inr ⟨[], c, rest, cut, lineBreak, ?_⟩
        rwa [← behind cut, List.append_nil]
      | cons d more =>
        obtain ⟨rfl, -⟩ := List.cons.inj inside
        obtain rfl := (passesInside passes outside).resolve_right free
        have normal : c ≠ '\\' := by
          rintro rfl
          cases lineBreak
        obtain rfl := passesFirst passes outside normal
        exact .inl ⟨c, outside, lineBreak⟩
  · rintro (⟨c, rfl, lineBreak⟩ | ⟨front, c, rest, cut, lineBreak, free⟩)
    · exact ⟨[], c, inner, rfl, lineBreak, by simp [Taken, slashRun]⟩
    · exact ⟨u ++ front, c, rest, by simp [cut], lineBreak, (not_congr (behind cut)).mpr free⟩

theorem passesEnds {quote : Char} (isOne : isQuote quote = true) {triple : Bool}
    {inner behind : List Char} (unmarked : ∀ rest, u ++ back ≠ delimiter quote triple ++ rest) :
    EndsAt (delimiter quote triple) (u ++ back) (u ++ inner) behind ↔
      EndsAt (delimiter quote triple) back inner behind := by
  constructor
  · intro ends
    refine ⟨?_, ?_, ?_⟩
    · simpa using ends.split
    · rw [← passesRun passes]
      exact ends.free
    · intro front rest split free
      have early := ends.first (u ++ front) rest (by rw [split]; simp)
        ((passesRun passes front).trans free)
      simpa using early
  · intro ends
    refine ⟨?_, ?_, ?_⟩
    · simp [ends.split]
    · rw [passesRun passes]
      exact ends.free
    · intro front rest split free
      rcases List.append_eq_append_iff.mp split with ⟨more, rfl, inside⟩ | ⟨more, outside, inside⟩
      · have early := ends.first more rest inside ((passesRun passes more).symm.trans free)
        simpa using early
      · cases more with
        | nil =>
          rw [List.append_nil] at outside
          subst outside
          have early := ends.first [] rest inside.symm rfl
          simp [List.length_eq_zero_iff.mp (Nat.le_zero.mp early)]
        | cons d more =>
          obtain ⟨mark, same⟩ := delimiterFirst quote triple
          rw [same, List.cons_append] at inside
          obtain ⟨rfl, inside⟩ := List.cons.inj inside
          rcases passesInside passes outside with rfl | taken
          · exact absurd (by rw [split]; simp) (unmarked rest)
          · rcases taken with odd | ⟨rfl, -⟩
            · omega
            · exact absurd isOne (by decide)

end

theorem passesSplit {inner x : List Char} (filled : inner ≠ []) (more : inner ≠ ['\\'])
    (feedless : x.head? ≠ some '\n') :
    ∃ u rest, inner = u ++ rest ∧ Passes (rest ++ x) u := by
  obtain ⟨c, inner, rfl⟩ := List.exists_cons_of_ne_nil filled
  by_cases slash : c = '\\'
  · subst slash
    cases inner with
    | nil => exact absurd rfl more
    | cons d rest =>
      by_cases both : d = '\r' ∧ (rest ++ x).head? = some '\n'
      · obtain ⟨rfl, feed⟩ := both
        cases rest with
        | nil => exact absurd feed feedless
        | cons e rest =>
          obtain rfl : e = '\n' := by simpa using feed
          exact ⟨['\\', '\r', '\n'], rest, rfl, .both⟩
      · exact ⟨['\\', d], rest, rfl, .pair (not_and.mp both)⟩
  · exact ⟨[c], inner, rfl, .plain slash⟩

theorem markFirst {quote c : Char} {triple : Bool} {back : List Char} :
    (∃ rest, c :: back = delimiter quote triple ++ rest) ↔
      c = quote ∧ (triple = true → isTriple quote (c :: back) = true) := by
  cases triple with
  | true =>
    rw [isTriple, startsWithIff, delimiter, if_pos rfl]
    constructor
    · rintro ⟨rest, same⟩
      exact ⟨(List.cons.inj same).1, fun _ => ⟨rest, same⟩⟩
    · exact fun both => both.2 rfl
  | false => simp [delimiter]

section
variable {quote : Char} {triple : Bool}

theorem withinPlain {c : Char} {back : List Char} : Within quote triple back [c] ↔
    c ≠ '\\' ∧ (isBreak c = true → triple = true) ∧
      (c = quote → triple = true ∧ isTriple quote (c :: back) = false) := by
  have unmarked : (∀ rest, c :: back ≠ delimiter quote triple ++ rest) ↔
      (c = quote → triple = true ∧ isTriple quote (c :: back) = false) := by
    rw [← not_exists, markFirst]
    simp
  constructor
  · rintro ⟨passes, other, inLine⟩
    refine ⟨?_, inLine c rfl, unmarked.mp other⟩
    cases passes with
    | plain normal => exact normal
  · rintro ⟨normal, inLine, other⟩
    refine ⟨.plain normal, unmarked.mpr other, ?_⟩
    rintro d same
    rwa [← (List.cons.inj same).1]

theorem shutsMark (x : List Char) : Shuts quote triple (delimiter quote triple) x := by
  cases triple with
  | true => exact .triple
  | false => exact .single

theorem shutsPass {u t x : List Char} (within : Within quote triple (t ++ x) u)
    (later : Shuts quote triple t x) : Shuts quote triple (u ++ t) x := by
  cases within.passes with
  | plain =>
    obtain ⟨normal, inLine, other⟩ := withinPlain.mp within
    exact .plain normal inLine other later
  | pair alone => exact .pair alone later
  | both => exact .both later

variable (isOne : isQuote quote = true)
include isOne

theorem withinSlash {back u : List Char} (passes : Passes back ('\\' :: u)) :
    Within quote triple back ('\\' :: u) := by
  refine ⟨passes, ?_, ?_⟩
  · intro rest same
    obtain ⟨rfl, -⟩ := markFirst.mp ⟨rest, same⟩
    cases isOne
  · intro c same lineBreak
    obtain ⟨rfl, -⟩ := List.cons.inj same
    cases lineBreak

@[elab_as_elim]
theorem shutsSteps {motive : List Char → List Char → Prop}
    (mark : ∀ x, motive (delimiter quote triple) x)
    (pass : ∀ u t x, Within quote triple (t ++ x) u → Shuts quote triple t x → motive t x →
      motive (u ++ t) x) {t x : List Char} (shut : Shuts quote triple t x) : motive t x := by
  induction shut with
  | single => exact mark _
  | triple => exact mark _
  | pair alone later ih => exact pass _ _ _ (withinSlash isOne (.pair alone)) later (ih mark pass)
  | both later ih => exact pass _ _ _ (withinSlash isOne .both) later (ih mark pass)
  | plain normal lineBreak inside later ih =>
    exact pass _ _ _ (withinPlain.mpr ⟨normal, lineBreak, inside⟩) later (ih mark pass)

theorem shutsEnds {t x : List Char} (shut : Shuts quote triple t x) :
    ∃ inner, t = inner ++ delimiter quote triple ∧
      EndsAt (delimiter quote triple) (t ++ x) inner x ∧
      (triple = false → ¬ HoldsBreak inner) := by
  refine shutsSteps isOne ?_ ?_ shut
  · intro x
    refine ⟨[], rfl, ⟨rfl, rfl, fun _ _ _ _ => Nat.zero_le _⟩, ?_⟩
    rintro - ⟨front, c, back, cut, -⟩
    simp at cut
  · rintro u t x ⟨passes, unmarked, inLine⟩ - ⟨inner, rfl, ends, inside⟩
    refine ⟨u ++ inner, by simp, ?_, ?_⟩
    · rw [List.append_assoc]
      exact (passesEnds passes isOne unmarked).mpr ends
    · intro single
      rw [passesHolds passes (List.append_assoc ..)]
      rintro (⟨c, rfl, lineBreak⟩ | within)
      · exact absurd (inLine c rfl lineBreak) (by simp [single])
      · exact inside single within

theorem endsShut {inner behind : List Char}
    (ends : EndsAt (delimiter quote triple) (inner ++ (delimiter quote triple ++ behind)) inner behind)
    (inside : triple = false → ¬ HoldsBreak inner) :
    Shuts quote triple (inner ++ delimiter quote triple) behind := by
  by_cases filled : inner = []
  · subst filled
    exact shutsMark behind
  · have feedless : (delimiter quote triple ++ behind).head? ≠ some '\n' := by
      obtain ⟨more, same⟩ := delimiterFirst quote triple
      rw [same]
      exact fun first => quoteInLine isOne (Option.some.inj first)
    have more : inner ≠ ['\\'] := by
      rintro rfl
      exact absurd ends.free (by decide)
    obtain ⟨u, rest, rfl, passes⟩ := passesSplit filled more feedless
    have unmarked : ∀ back, u ++ (rest ++ (delimiter quote triple ++ behind)) ≠
        delimiter quote triple ++ back := by
      intro back same
      have early := ends.first [] back (by rw [List.append_assoc, same]; rfl) rfl
      exact filled (List.length_eq_zero_iff.mp (Nat.le_zero.mp early))
    have holds := passesHolds passes rfl
    have smaller : rest.length < (u ++ rest).length := by
      have positive := List.length_pos_iff.mpr (passesFilled passes)
      simp only [List.length_append]
      omega
    rw [List.append_assoc u] at ends ⊢
    refine shutsPass ⟨by rwa [List.append_assoc], by simpa using unmarked, ?_⟩ (endsShut ?_ ?_)
    · intro c same lineBreak
      refine Classical.byContradiction fun single => ?_
      exact inside (by simpa using single) (holds.mpr (.inl ⟨c, same, lineBreak⟩))
    · exact (passesEnds passes isOne unmarked).mp ends
    · exact fun single within => inside single (holds.mpr (.inr within))
termination_by inner.length

theorem shutsIff {body inner behind : List Char}
    (split : body = inner ++ (delimiter quote triple ++ behind)) :
    Shuts quote triple (inner ++ delimiter quote triple) behind ↔
      EndsAt (delimiter quote triple) body inner behind ∧ (triple = false → ¬ HoldsBreak inner) := by
  subst split
  constructor
  · intro shut
    obtain ⟨other, same, ends⟩ := shutsEnds isOne shut
    obtain rfl := List.append_cancel_right same
    rwa [List.append_assoc] at ends
  · exact fun both => endsShut isOne both.1 both.2

end

theorem closeAllMoved {context : Context} {offset : Nat} {c : Char} {s x : List Char} {move : Move}
    (moved : context.move offset c (s ++ x) = .ok move) (whole : move.more = s.length)
    (below : List Context) :
    closeAll offset (context :: below) (c :: (s ++ x)) =
      (closeAll (offset + byteLength (c :: s)) (move.apply below) x).map (· + (s.length + 1)) := by
  simp only [closeAll, moved, whole, List.take_left, List.drop_left]
  cases closeAll (offset + byteLength (c :: s)) (move.apply below) x <;> rfl

section
variable {quote : Char} {triple : Bool} {affix : Affix} (unformatted : affix.formatted = false)
  (start : Nat)
include unformatted

theorem withinMove {back u : List Char} (within : Within quote triple back u) :
    ∃ c s, u = c :: s ∧ bodyMove quote triple affix start c (s ++ back) =
      .ok (.stay s.length (.body quote triple affix start)) := by
  cases within.passes with
  | @plain c normal =>
    obtain ⟨-, inLine, other⟩ := withinPlain.mp within
    refine ⟨c, [], rfl, ?_⟩
    rw [bodyPlain unformatted normal inLine, if_neg]
    · rfl
    · rintro ⟨same, triples⟩
      obtain ⟨long, short⟩ := other same
      exact Bool.false_ne_true (short.symm.trans (triples long))
  | @pair c alone =>
    refine ⟨'\\', [c], rfl, ?_⟩
    rw [bodyBackslash unformatted, if_neg]
    · simp
    · intro both
      obtain ⟨later, same⟩ := startsWithIff.mp both
      obtain ⟨rfl, rfl⟩ := List.cons.inj same
      exact alone rfl rfl
  | both =>
    refine ⟨'\\', ['\r', '\n'], rfl, ?_⟩
    rw [bodyBackslash unformatted, if_pos (startsWithIff.mpr ⟨back, rfl⟩)]
    rfl

theorem markMove (isOne : isQuote quote = true) (x : List Char) :
    ∃ c s, delimiter quote triple = c :: s ∧
      bodyMove quote triple affix start c (s ++ x) = .ok (.leave s.length) := by
  have normal : quote ≠ '\\' := by
    rintro rfl
    cases isOne
  have inLine : isBreak quote = true → triple = true := by
    intro lineBreak
    rw [breakNotQuote lineBreak] at isOne
    cases isOne
  obtain ⟨more, same⟩ := delimiterFirst quote triple
  refine ⟨quote, more, same, ?_⟩
  rw [bodyPlain unformatted normal inLine, if_pos (markFirst.mp ⟨x, by rw [same]; rfl⟩)]
  cases triple <;> cases same <;> rfl

/- A literal without fields either shuts, or it is an error that names its own start. -/
theorem bodyOutcome (isOne : isQuote quote = true) (body : List Char) :
    (∃ t x, body = t ++ x ∧ Shuts quote triple t x) ∨
      ∀ offset below, closeAll offset (.body quote triple affix start :: below) body =
        .error (Context.body quote triple affix start).unterminated := by
  by_cases empty : body = []
  · subst empty
    exact .inr fun offset below => by rw [closeAll]
  by_cases marked : ∃ rest, body = delimiter quote triple ++ rest
  · obtain ⟨rest, rfl⟩ := marked
    exact .inl ⟨_, rest, rfl, shutsMark rest⟩
  by_cases lone : body = ['\\']
  · subst lone
    refine .inr fun offset below => ?_
    have moved : (Context.body quote triple affix start).move offset '\\' ([] ++ []) =
        .ok (.stay 0 (.body quote triple affix start)) :=
      bodyBackslash unformatted quote triple start []
    refine (closeAllMoved moved rfl below).trans ?_
    rw [Move.apply, closeAll]
    rfl
  obtain ⟨u, back, rfl, passes⟩ := passesSplit (x := []) empty lone (by simp)
  rw [List.append_nil] at passes
  by_cases broken : ∃ c, u = [c] ∧ isBreak c = true ∧ triple = false
  · obtain ⟨c, rfl, lineBreak, rfl⟩ := broken
    refine .inr fun offset below => ?_
    rw [List.singleton_append, closeAll, Context.move, bodyBroken lineBreak]
  · have within : Within quote triple back u := by
      refine ⟨passes, not_exists.mp marked, fun c same lineBreak => ?_⟩
      refine Classical.byContradiction fun single => broken ⟨c, same, lineBreak, ?_⟩
      simpa using single
    have smaller : back.length < (u ++ back).length := by
      have positive := List.length_pos_iff.mpr (passesFilled passes)
      simp only [List.length_append]
      omega
    rcases bodyOutcome isOne back with ⟨t, x, rfl, shut⟩ | unterminated
    · exact .inl ⟨u ++ t, x, by simp, shutsPass within shut⟩
    · refine .inr fun offset below => ?_
      obtain ⟨c, s, rfl, moved⟩ := withinMove unformatted start within
      have moved : (Context.body quote triple affix start).move offset c (s ++ back) = _ := moved
      refine (closeAllMoved moved rfl below).trans ?_
      rw [Move.apply, unterminated]
      rfl
termination_by body.length

end

end CommentStrip.Python
