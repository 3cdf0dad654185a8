import CommentStrip.Text.Basic

/-! A text is cut in two, `s ++ x`, and what follows the cut is exchanged. A reader that stays in
front of the cut sees the same. -/
namespace CommentStrip.Text

theorem startsWithPrefix {head text : List Char} : startsWith head text = true ↔ head <+: text := by
  rw [startsWithIff]
  constructor
  · intro parts
    obtain ⟨rest, rfl⟩ := parts
    exact List.prefix_append head rest
  · intro parts
    obtain ⟨rest, rfl⟩ := parts
    exact ⟨rest, rfl⟩

theorem startsWithInside (head : List Char) {s : List Char} (short : head.length ≤ s.length)
    (x : List Char) :
    startsWith head (s ++ x) = startsWith head s := by
  rw [Bool.eq_iff_iff, startsWithPrefix, startsWithPrefix]
  constructor
  · intro h
    exact List.prefix_of_prefix_length_le h (List.prefix_append s x) short
  · intro h
    exact h.trans (List.prefix_append s x)

theorem startsWithLength {head text : List Char} (starts : startsWith head text = true) :
    head.length ≤ text.length := (startsWithPrefix.mp starts).length_le

theorem throughHere {stop text : List Char} (starts : startsWith stop text = true) :
    through stop text = some stop.length := by
  obtain ⟨rest, rfl⟩ := startsWithIff.mp starts
  have found : after stop (stop ++ rest) = some rest := afterSome.mpr rfl
  cases h : stop ++ rest with
  | nil => simp [through, firstWhere, ← h, found]
  | cons c later =>
    rw [h] at found
    simp [through, firstWhere, found]

theorem throughLater {stop rest : List Char} {c : Char}
    (other : startsWith stop (c :: rest) = false) :
    through stop (c :: rest) = (through stop rest).map (· + 1) := by
  have missed : after stop (c :: rest) = none := by simpa [startsWith] using other
  simp only [through, firstWhere, missed, Option.map_map]
  congr 1
  funext found
  simp only [Function.comp_apply]
  omega

theorem throughLength {stop text : List Char} {n : Nat} (found : through stop text = some n) :
    stop.length ≤ n ∧ n ≤ text.length := by
  induction text generalizing n with
  | nil =>
    simp only [through, firstWhere, Option.map_map, Option.map_eq_some_iff] at found
    obtain ⟨rest, hit, rfl⟩ := found
    have same := congrArg List.length (afterSome.mp hit)
    simp only [List.length_nil, List.length_append] at same
    simp only [Function.comp_apply, List.length_nil]
    omega
  | cons c text ih =>
    cases starts : startsWith stop (c :: text) with
    | true =>
      rw [throughHere starts] at found
      cases Option.some.inj found
      exact ⟨Nat.le_refl _, startsWithLength starts⟩
    | false =>
      rw [throughLater starts, Option.map_eq_some_iff] at found
      obtain ⟨m, later, rfl⟩ := found
      have bound := ih later
      simp only [List.length_cons]
      omega

theorem throughFirst {stop text : List Char} {e : Nat} (occurs : startsWith stop (text.drop e) = true) :
    ∃ n, through stop text = some n ∧ n ≤ e + stop.length := by
  induction e generalizing text with
  | zero => exact ⟨_, throughHere occurs, by omega⟩
  | succ e ih =>
    cases text with
    | nil => exact ⟨_, throughHere occurs, by omega⟩
    | cons c rest =>
      cases starts : startsWith stop (c :: rest) with
      | true => exact ⟨_, throughHere starts, by omega⟩
      | false =>
        obtain ⟨n, reached, near⟩ := ih occurs
        exact ⟨n + 1, by rw [throughLater starts, reached]; rfl, by omega⟩

theorem throughEnds {stop text : List Char} {n : Nat} (found : through stop text = some n) :
    ∃ e, n = e + stop.length ∧ startsWith stop (text.drop e) = true := by
  rw [through, Option.map_eq_some_iff] at found
  obtain ⟨⟨e, rest⟩, first, rfl⟩ := found
  exact ⟨e, rfl, by rw [startsWith, firstWhereHolds first]; rfl⟩

theorem throughOne {stop : Char} {text : List Char} {n : Nat} :
    through [stop] text = some n ↔
      ∃ front behind, text = front ++ stop :: behind ∧ stop ∉ front ∧ n = front.length + 1 := by
  constructor
  · intro found
    obtain ⟨e, rfl, starts⟩ := throughEnds found
    obtain ⟨behind, same⟩ := startsWithIff.mp starts
    refine ⟨text.take e, behind, ?_, fun inside => ?_, ?_⟩
    · rw [← List.singleton_append, ← same, List.take_append_drop]
    · obtain ⟨i, small, here⟩ := List.mem_iff_getElem.mp inside
      rw [List.length_take] at small
      rw [List.getElem_take] at here
      have earlier : startsWith [stop] (text.drop i) = true :=
        startsWithIff.mpr ⟨_, by rw [List.drop_eq_getElem_cons (by omega), here]; rfl⟩
      obtain ⟨m, reached, near⟩ := throughFirst earlier
      rw [found] at reached
      cases reached
      simp only [List.length_singleton] at near
      omega
    · have within := (throughLength found).2
      simp only [List.length_singleton] at within
      rw [List.length_take, List.length_singleton]
      omega
  · rintro ⟨front, behind, rfl, other, rfl⟩
    induction front with
    | nil => exact throughHere (startsWithIff.mpr ⟨behind, rfl⟩)
    | cons c front ih =>
      rw [List.mem_cons, not_or] at other
      have apart : startsWith [stop] (c :: (front ++ stop :: behind)) = false := by
        simp [startsWith, after, other.1]
      rw [List.cons_append, throughLater apart, ih other.2, Option.map_some, List.length_cons]

theorem throughInside {stop s x : List Char} {n : Nat} (found : through stop (s ++ x) = some n)
    (inside : n ≤ s.length) (y : List Char) : through stop (s ++ y) = some n := by
  have short : stop.length ≤ s.length := Nat.le_trans (throughLength found).1 inside
  induction s generalizing n with
  | nil =>
    have empty : stop = [] := List.length_eq_zero_iff.mp (Nat.le_zero.mp short)
    subst empty
    rw [throughHere rfl] at found ⊢
    exact found
  | cons c s ih =>
    simp only [List.cons_append] at found ⊢
    have same : startsWith stop (c :: (s ++ x)) = startsWith stop (c :: (s ++ y)) :=
      (startsWithInside stop short x).trans (startsWithInside stop short y).symm
    cases starts : startsWith stop (c :: (s ++ x)) with
    | true =>
      rw [throughHere starts] at found
      rw [throughHere (same.symm.trans starts)]
      exact found
    | false =>
      rw [throughLater starts, Option.map_eq_some_iff] at found
      obtain ⟨m, later, rfl⟩ := found
      simp only [List.length_cons] at inside
      have shorter : stop.length ≤ s.length :=
        Nat.le_trans (throughLength later).1 (by omega)
      rw [throughLater (same.symm.trans starts), ih later (by omega) shorter, Option.map_some]

theorem takeWhileInside {p : Char → Bool} {s x : List Char}
    (inside : ((s ++ x).takeWhile p).length < s.length) (y : List Char) :
    (s ++ y).takeWhile p = (s ++ x).takeWhile p := by
  induction s with
  | nil => simp at inside
  | cons c s ih =>
    simp only [List.cons_append, List.takeWhile_cons] at inside ⊢
    cases taken : p c with
    | true =>
      simp only [taken, if_true, List.length_cons] at inside ⊢
      rw [ih (by omega)]
    | false => simp

theorem takeWhileAll {p : Char → Bool} {s x : List Char}
    (whole : ((s ++ x).takeWhile p).length = s.length) : (s ++ x).takeWhile p = s := by
  have front : (s ++ x).takeWhile p <+: s ++ x := List.takeWhile_prefix p
  rw [List.prefix_iff_eq_take, whole, List.take_left] at front
  exact front

theorem takeWhileEnds {p : Char → Bool} {s x : List Char}
    (whole : ((s ++ x).takeWhile p).length = s.length) :
    ∀ c, x.head? = some c → p c = false := by
  induction s with
  | nil =>
    cases x with
    | nil => simp
    | cons d x =>
      intro c first
      cases Option.some.inj first
      cases taken : p d with
      | true => simp [taken] at whole
      | false => rfl
  | cons c s ih =>
    simp only [List.cons_append, List.takeWhile_cons] at whole
    cases taken : p c with
    | true =>
      simp only [taken, if_true, List.length_cons] at whole
      exact ih (by omega)
    | false => simp [taken] at whole

theorem takeWhileExact {p : Char → Bool} {s x : List Char} (within : ∀ c ∈ s, p c = true)
    (stops : ∀ c, x.head? = some c → p c = false) : (s ++ x).takeWhile p = s := by
  rw [List.takeWhile_append_of_pos within]
  cases x with
  | nil => simp
  | cons c x => simp [stops c rfl]

theorem takeWhileWhole {p : Char → Bool} {s x : List Char}
    (whole : ((s ++ x).takeWhile p).length = s.length) {y : List Char}
    (stops : ∀ c, y.head? = some c → p c = false) :
    ((s ++ y).takeWhile p).length = s.length := by
  have within : ∀ c ∈ s, p c = true := by
    have each := List.all_eq_true.mp (List.all_takeWhile (p := p) (l := s ++ x))
    rw [takeWhileAll whole] at each
    exact each
  rw [takeWhileExact within stops]

end CommentStrip.Text
