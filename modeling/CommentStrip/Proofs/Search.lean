import CommentStrip.Alternation

/-! The places a search comes to, and what its pieces say about them: an accepted find is a piece
of its own, and places passed one after the other lie in one gap. -/
namespace CommentStrip
variable {μ : Type}

def spelled (pieces : List (Piece μ)) : List Char := (pieces.map Piece.text).flatten

theorem spelledCons (piece : Piece μ) (rest : List (Piece μ)) :
    spelled (piece :: rest) = piece.text ++ spelled rest := rfl

theorem spelledAppend (earlier later : List (Piece μ)) :
    spelled (earlier ++ later) = spelled earlier ++ spelled later := by
  simp [spelled]

namespace Alternation
variable {a : Alternation μ} {accept : Acceptance μ}

theorem spelledSearch (a : Alternation μ) (accept : Acceptance μ) (text : List Char) :
    spelled (a.search accept text) = text := searchText a accept text

theorem matchAtIff {here : List Char}
    (agree : ∀ f ∈ a.branches, ∀ g ∈ a.branches, ∀ x y, f here = some x → g here = some y → x = y)
    {found : μ} : a.matchAt here = some found ↔ ∃ branch ∈ a.branches, branch here = some found := by
  constructor
  · exact List.exists_of_findSome?_eq_some
  · intro parts
    obtain ⟨branch, known, same⟩ := parts
    have speaks : (a.matchAt here).isSome := by
      rw [matchAt, List.findSome?_isSome_iff]
      exact ⟨branch, known, by simp [same]⟩
    obtain ⟨other, first⟩ := Option.isSome_iff_exists.mp speaks
    obtain ⟨winner, knownToo, sameToo⟩ := List.exists_of_findSome?_eq_some first
    rw [first, agree winner knownToo branch known other found sameToo same]

theorem acceptedIff {before here : List Char} {found : μ} :
    a.accepted? accept before here = some found ↔
      a.matchAt here = some found ∧ a.width found ≠ 0 ∧ accept before found here = true := by
  rw [accepted?, Option.filter_eq_some_iff, Bool.and_eq_true, bne_iff_ne]

theorem acceptedMatch {before here : List Char} {found : μ}
    (spoke : a.accepted? accept before here = some found) :
    a.matchAt here = some found ∧ a.width found ≠ 0 := by
  obtain ⟨matched, filled, -⟩ := acceptedIff.mp spoke
  exact ⟨matched, filled⟩

theorem acceptedRead {before here : List Char} {found : μ} (matched : a.matchAt here = some found) :
    a.accepted? accept before here =
      if a.width found ≠ 0 ∧ accept before found here = true then some found else none := by
  simp [accepted?, matched, Option.filter]

theorem passedIff {before here : List Char} :
    a.accepted? accept before here = none ↔
      (∀ found, a.matchAt here = some found → a.width found = 0) ∨
        ∃ found, a.matchAt here = some found ∧ accept before found here = false := by
  cases matched : a.matchAt here with
  | none => simp [accepted?, matched]
  | some found => simp [accepted?, matched, Option.filter_eq_none_iff,
      Decidable.or_iff_not_imp_left]

/- What lies in front of the place, latest character first, and what follows. -/
inductive Visits (a : Alternation μ) (accept : Acceptance μ) (text : List Char) :
    List Char → List Char → Prop where
  | start : Visits a accept text [] text
  | past {before c rest} (seen : Visits a accept text before (c :: rest))
      (passed : a.accepted? accept before (c :: rest) = none) :
      Visits a accept text (c :: before) rest
  | taken {before c rest found} (seen : Visits a accept text before (c :: rest))
      (spoke : a.accepted? accept before (c :: rest) = some found) :
      Visits a accept text ((c :: rest.take (a.width found - 1)).reverse ++ before)
        (rest.drop (a.width found - 1))

theorem closeGapAppend (gap : List Char) (later : List (Piece μ)) :
    closeGap gap later = closeGap gap [] ++ later := by
  unfold closeGap
  split <;> rfl

theorem closeGapSpelled (gap : List Char) : spelled (closeGap (μ := μ) gap []) = gap.reverse := by
  simpa [spelled] using closeGapText (μ := μ) gap []

theorem searchPast {before gap rest : List Char} {c : Char}
    (passed : a.accepted? accept before (c :: rest) = none) :
    a.searchFrom accept before gap (c :: rest) =
      a.searchFrom accept (c :: before) (c :: gap) rest := by
  rw [searchFrom, passed]

theorem searchOver {before gap rest : List Char} {c : Char} {found : μ}
    (spoke : a.accepted? accept before (c :: rest) = some found) :
    a.searchFrom accept before gap (c :: rest) =
      closeGap gap (.hit found (c :: rest.take (a.width found - 1)) ::
        a.searchFrom accept ((c :: rest.take (a.width found - 1)).reverse ++ before) []
          (rest.drop (a.width found - 1))) := by
  rw [searchFrom, spoke]

theorem searchTaken {before gap taken rest : List Char} {found : μ} (filled : taken ≠ [])
    (long : a.width found = taken.length)
    (spoke : a.accepted? accept before (taken ++ rest) = some found) :
    a.searchFrom accept before gap (taken ++ rest) =
      closeGap gap (.hit found taken ::
        a.searchFrom accept (taken.reverse ++ before) [] rest) := by
  cases taken with
  | nil => exact absurd rfl filled
  | cons c taken =>
    rw [List.cons_append] at spoke ⊢
    rw [searchOver spoke, long]
    simp

theorem visitsText {text before here : List Char} (seen : Visits a accept text before here) :
    before.reverse ++ here = text := by
  induction seen with
  | start => rfl
  | past seen passed ih => simpa using ih
  | taken seen spoke ih => simpa using ih

theorem visitsPlace {text before here : List Char} (seen : Visits a accept text before here) :
    before.length < text.length + 1 ∧ (text.take before.length).reverse = before ∧
      text.drop before.length = here := by
  have whole := visitsText seen
  rw [← whole, ← List.length_reverse, List.take_left, List.drop_left, List.reverse_reverse]
  exact ⟨by rw [List.length_append]; omega, rfl, rfl⟩

theorem visitsOver {text before taken rest : List Char} {found : μ} (filled : taken ≠ [])
    (long : a.width found = taken.length)
    (spoke : a.accepted? accept before (taken ++ rest) = some found)
    (seen : Visits a accept text before (taken ++ rest)) :
    Visits a accept text (taken.reverse ++ before) rest := by
  obtain ⟨c, inner, rfl⟩ := List.exists_cons_of_ne_nil filled
  rw [List.cons_append] at seen spoke
  have step := Visits.taken seen spoke
  have more : a.width found - 1 = inner.length := by
    rw [long, List.length_cons, Nat.add_sub_cancel]
  rwa [more, List.take_left, List.drop_left] at step

theorem visitsPieces {text before here : List Char} (seen : Visits a accept text before here) :
    ∃ earlier gap, a.search accept text = earlier ++ a.searchFrom accept before gap here ∧
      spelled earlier ++ gap.reverse = before.reverse := by
  induction seen with
  | start => exact ⟨[], [], rfl, rfl⟩
  | @past before c rest seen passed ih =>
    obtain ⟨earlier, gap, split, told⟩ := ih
    refine ⟨earlier, c :: gap, ?_, ?_⟩
    · rw [split, searchPast passed]
    · rw [List.reverse_cons, List.reverse_cons, ← List.append_assoc, told]
  | @taken before c rest found seen spoke ih =>
    obtain ⟨earlier, gap, split, told⟩ := ih
    refine ⟨earlier ++ closeGap gap [.hit found (c :: rest.take (a.width found - 1))], [], ?_, ?_⟩
    · rw [split, searchOver spoke, closeGapAppend gap (_ :: _), closeGapAppend gap [_]]
      simp
    · rw [spelledAppend, closeGapAppend, spelledAppend, closeGapSpelled, ← List.append_assoc, told]
      simp [spelled, Piece.text]

theorem visitsHit {text before rest : List Char} {c : Char} {found : μ}
    (seen : Visits a accept text before (c :: rest))
    (spoke : a.accepted? accept before (c :: rest) = some found) :
    ∃ earlier later, a.search accept text =
        earlier ++ .hit found (c :: rest.take (a.width found - 1)) :: later ∧
      spelled earlier = before.reverse := by
  obtain ⟨earlier, gap, split, told⟩ := visitsPieces seen
  rw [searchOver spoke, closeGapAppend, ← List.append_assoc] at split
  refine ⟨_, _, split, ?_⟩
  rw [spelledAppend, closeGapSpelled, told]

/- The search comes to a place, or a find from an earlier place on reaches beyond it. -/
theorem visitsOrCovers (a : Alternation μ) (accept : Acceptance μ) {text front here : List Char}
    (cut : text = front.reverse ++ here) :
    Visits a accept text front here ∨
      ∃ before c rest found, Visits a accept text before (c :: rest) ∧
        a.accepted? accept before (c :: rest) = some found ∧ before.length < front.length ∧
        front.length < before.length + a.width found := by
  induction front generalizing here with
  | nil => exact .inl (by rw [cut]; exact .start)
  | cons d front ih =>
    have earlierCut : text = front.reverse ++ d :: here := by simpa using cut
    rw [List.length_cons]
    rcases ih earlierCut with seen | ⟨before, c, rest, found, seen, spoke, earlier, covers⟩
    · cases spoke : a.accepted? accept front (d :: here) with
      | none => exact .inl (.past seen spoke)
      | some found =>
        have filled := (acceptedMatch spoke).2
        by_cases more : a.width found = 1
        · have step := Visits.taken seen spoke
          rw [more] at step
          exact .inl step
        · exact .inr ⟨_, _, _, found, seen, spoke, by omega, by omega⟩
    · by_cases ends : front.length + 1 < before.length + a.width found
      · exact .inr ⟨before, c, rest, found, seen, spoke, Nat.lt_succ_of_lt earlier, ends⟩
      · -- The find ends where the next place begins.
        have step := Visits.taken seen spoke
        have size := congrArg List.length ((visitsText seen).trans cut)
        simp only [List.length_append, List.length_reverse, List.length_cons] at size
        obtain ⟨same, behind⟩ := List.append_inj ((visitsText step).trans cut) (by
          simp only [List.length_append, List.length_reverse, List.length_cons, List.length_take]
          omega)
        rw [List.reverse_inj.mp same, behind] at step
        exact .inl step

/- No place from the first character of `raw` to its last is accepted. -/
def Quiet (a : Alternation μ) (accept : Acceptance μ) (before raw behind : List Char) : Prop :=
  ∀ front back, raw = front ++ back → back ≠ [] →
    a.accepted? accept (front.reverse ++ before) (back ++ behind) = none

theorem Quiet.head {before raw behind : List Char} {c : Char}
    (quiet : Quiet a accept before (c :: raw) behind) :
    a.accepted? accept before (c :: (raw ++ behind)) = none := by
  simpa using quiet [] (c :: raw) rfl (by simp)

theorem Quiet.tail {before raw behind : List Char} {c : Char}
    (quiet : Quiet a accept before (c :: raw) behind) : Quiet a accept (c :: before) raw behind := by
  intro front back same filled
  simpa using quiet (c :: front) back (by simp [same]) filled

theorem quietCons {before raw behind : List Char} {c : Char}
    (head : a.accepted? accept before (c :: (raw ++ behind)) = none)
    (tail : Quiet a accept (c :: before) raw behind) : Quiet a accept before (c :: raw) behind := by
  intro front back same filled
  cases front with
  | nil =>
    obtain rfl : c :: raw = back := same
    exact head
  | cons d front =>
    simp only [List.cons_append, List.cons.injEq] at same
    obtain ⟨rfl, same⟩ := same
    simpa using tail front back same filled

theorem Quiet.append {before front raw behind : List Char}
    (one : Quiet a accept before front (raw ++ behind))
    (two : Quiet a accept (front.reverse ++ before) raw behind) :
    Quiet a accept before (front ++ raw) behind := by
  induction front generalizing before with
  | nil => exact two
  | cons c front ih =>
    have head := one.head
    rw [← List.append_assoc] at head
    exact quietCons head (ih one.tail (by simpa using two))

theorem quietEach {raw : List Char}
    (each : ∀ c ∈ raw, ∀ before rest, a.accepted? accept before (c :: rest) = none)
    (before behind : List Char) : Quiet a accept before raw behind := by
  intro front back same filled
  obtain ⟨c, back, rfl⟩ := List.exists_cons_of_ne_nil filled
  exact each c (by simp [same]) _ _

theorem searchQuiet {before gap raw behind : List Char}
    (quiet : Quiet a accept before raw behind) :
    a.searchFrom accept before gap (raw ++ behind) =
      a.searchFrom accept (raw.reverse ++ before) (raw.reverse ++ gap) behind := by
  induction raw generalizing before gap with
  | nil => rfl
  | cons c raw ih =>
    rw [List.cons_append, searchPast quiet.head, ih quiet.tail]
    simp

theorem searchOpen {before gap here : List Char} (filled : gap ≠ []) :
    ∃ more later, a.searchFrom accept before gap here = .gap (gap.reverse ++ more) :: later := by
  have closes : ∀ {gap : List Char} {later : List (Piece μ)}, gap ≠ [] →
      closeGap gap later = .gap gap.reverse :: later := by
    intro gap later filled
    simp [closeGap, filled]
  fun_induction searchFrom a accept before gap here with
  | case1 before gap => exact ⟨[], [], by rw [closes filled, List.append_nil]⟩
  | case2 before gap c rest found spoke more taken ih =>
    exact ⟨[], _, by rw [closes filled, List.append_nil]⟩
  | case3 before gap c rest passed ih =>
    obtain ⟨more, later, same⟩ := ih (by simp)
    exact ⟨c :: more, later, by simpa using same⟩

theorem visitsQuiet {text before raw behind : List Char}
    (seen : Visits a accept text before (raw ++ behind)) (filled : raw ≠ [])
    (quiet : Quiet a accept before raw behind) :
    ∃ earlier front back later,
      a.search accept text = earlier ++ .gap (front ++ raw ++ back) :: later ∧
        spelled earlier ++ front = before.reverse := by
  obtain ⟨earlier, gap, split, told⟩ := visitsPieces seen
  rw [searchQuiet quiet] at split
  have carried : raw.reverse ++ gap ≠ [] := by simp [filled]
  have carriedOn : ∃ more later, a.searchFrom accept (raw.reverse ++ before) (raw.reverse ++ gap) behind =
      .gap ((raw.reverse ++ gap).reverse ++ more) :: later := searchOpen carried
  obtain ⟨more, later, same⟩ := carriedOn
  refine ⟨earlier, gap.reverse, more, later, ?_, told⟩
  rw [split, same]
  simp

theorem closeGapMember {gap : List Char} {later : List (Piece μ)} {piece : Piece μ}
    (member : piece ∈ closeGap gap later) :
    (piece = .gap gap.reverse ∧ gap ≠ []) ∨ piece ∈ later := by
  unfold closeGap at member
  split at member
  · exact .inr member
  · rename_i filled
    rw [List.isEmpty_iff] at filled
    rcases List.mem_cons.mp member with same | inside
    · exact .inl ⟨same, filled⟩
    · exact .inr inside

theorem piecesFilled {before gap here : List Char} :
    ∀ piece ∈ a.searchFrom accept before gap here, piece.text ≠ [] := by
  intro piece member
  fun_induction searchFrom a accept before gap here with
  | case1 before gap =>
    rcases closeGapMember member with ⟨rfl, filled⟩ | inside
    · simpa [Piece.text] using filled
    · cases inside
  | case2 before gap c rest found spoke more taken ih =>
    rcases closeGapMember member with ⟨rfl, filled⟩ | inside
    · simpa [Piece.text] using filled
    · rcases List.mem_cons.mp inside with rfl | later
      · simp [Piece.text, taken]
      · exact ih later
  | case3 before gap c rest passed ih => exact ih member

theorem closeGapHit {gap taken : List Char} {found : μ} {front back later : List (Piece μ)}
    (split : closeGap gap later = front ++ .hit found taken :: back) :
    ∃ between, front = closeGap gap [] ++ between ∧
      later = between ++ .hit found taken :: back := by
  by_cases empty : gap.isEmpty = true
  · simp only [closeGap, if_pos empty] at split ⊢
    exact ⟨front, rfl, split⟩
  · simp only [closeGap, if_neg empty] at split ⊢
    cases front with
    | nil => cases split
    | cons piece front =>
      obtain ⟨rfl, behind⟩ := List.cons.inj split
      exact ⟨front, rfl, behind⟩

theorem hitPlaced {before gap here taken : List Char} {found : μ} {back : List (Piece μ)}
    (front : List (Piece μ))
    (split : a.searchFrom accept before gap here = front ++ .hit found taken :: back) :
    ∃ passed, spelled front = gap.reverse ++ passed ∧
      a.accepted? accept (passed.reverse ++ before) (taken ++ spelled back) = some found ∧
      taken = (taken ++ spelled back).take (a.width found) := by
  fun_induction searchFrom a accept before gap here generalizing front with
  | case1 before gap =>
    obtain ⟨between, -, none⟩ := closeGapHit split
    simp at none
  | case2 before gap c rest read spoke more piece ih =>
    obtain ⟨between, rfl, later⟩ := closeGapHit split
    rw [spelledAppend, closeGapSpelled]
    cases between with
    | nil =>
      obtain ⟨same, behind⟩ := List.cons.inj later
      obtain ⟨rfl, rfl⟩ := Piece.hit.inj same
      have whole : piece ++ spelled back = c :: rest := by
        rw [← behind, spelled, searchFromText]
        simp [piece]
      refine ⟨[], rfl, by rwa [whole], ?_⟩
      rw [whole, ← Nat.succ_pred_eq_of_ne_zero (acceptedMatch spoke).2]
      rfl
    | cons first between =>
      obtain ⟨rfl, behind⟩ := List.cons.inj later
      obtain ⟨passed, told, accepted, took⟩ := ih between behind
      refine ⟨piece ++ passed, ?_, by simpa using accepted, took⟩
      rw [spelledCons, told]
      rfl
  | case3 before gap c rest passed ih =>
    obtain ⟨passed, told, accepted, took⟩ := ih front split
    exact ⟨c :: passed, by simpa using told, by simpa using accepted, took⟩

theorem hitAccepted {before gap here taken : List Char} {found : μ} {back : List (Piece μ)}
    (front : List (Piece μ))
    (split : a.searchFrom accept before gap here = front ++ .hit found taken :: back) :
    ∃ ahead, a.accepted? accept ahead (taken ++ spelled back) = some found := by
  obtain ⟨passed, -, accepted, -⟩ := hitPlaced front split
  exact ⟨_, accepted⟩

theorem hitReadsOn {before gap here taken : List Char} {found : μ} {back : List (Piece μ)}
    (front : List (Piece μ))
    (split : a.searchFrom accept before gap here = front ++ .hit found taken :: back) :
    a.matchAt (taken ++ spelled back) = some found := by
  obtain ⟨ahead, spoke⟩ := hitAccepted front split
  exact (acceptedMatch spoke).1

theorem hitsRead {before gap here taken : List Char} {found : μ}
    (member : .hit found taken ∈ a.searchFrom accept before gap here) :
    ∃ rest, a.matchAt (taken ++ rest) = some found := by
  obtain ⟨front, back, split⟩ := List.append_of_mem member
  exact ⟨spelled back, hitReadsOn front split⟩

theorem hitOutsideGap {text gap taken : List Char} {found : μ}
    {earlier later front back : List (Piece μ)}
    (one : a.search accept text = earlier ++ .gap gap :: later)
    (other : a.search accept text = front ++ .hit found taken :: back) :
    (spelled front).length < (spelled earlier).length ∨
      (spelled earlier).length + gap.length ≤ (spelled front).length := by
  have filled : taken ≠ [] := by
    have member : Piece.hit found taken ∈ a.searchFrom accept [] [] text := by
      show _ ∈ a.search accept text
      simp [other]
    exact piecesFilled _ member
  have long := List.length_pos_iff.mpr filled
  rcases List.append_eq_append_iff.mp (one.symm.trans other) with
    ⟨between, same, rest⟩ | ⟨between, same, rest⟩
  · right
    cases between with
    | nil => simp at rest
    | cons piece between =>
      simp only [List.cons_append, List.cons.injEq] at rest
      simp only [same, ← rest.1, spelledAppend, spelledCons, List.length_append, Piece.text]
      omega
  · left
    cases between with
    | nil => simp at rest
    | cons piece between =>
      simp only [List.cons_append, List.cons.injEq] at rest
      simp only [same, ← rest.1, spelledAppend, spelledCons, List.length_append, Piece.text]
      omega

theorem undisturbedQuiet {text before raw behind : List Char}
    (seen : Visits a accept text before (raw ++ behind))
    (undisturbed : ∀ earlier found taken later,
      a.search accept text = earlier ++ .hit found taken :: later →
        (spelled earlier).length < before.length ∨
          before.length + raw.length ≤ (spelled earlier).length) :
    Quiet a accept before raw behind := by
  induction raw generalizing before with
  | nil =>
    intro front back same filled
    exact absurd (List.append_eq_nil_iff.mp same.symm).2 filled
  | cons c raw ih =>
    have passed : a.accepted? accept before (c :: (raw ++ behind)) = none := by
      rw [Option.eq_none_iff_forall_ne_some]
      intro found spoke
      obtain ⟨earlier, later, split, told⟩ := visitsHit seen spoke
      have outside := undisturbed earlier found _ later split
      rw [told, List.length_reverse, List.length_cons] at outside
      omega
    refine quietCons passed (ih (.past seen passed) ?_)
    intro earlier found taken later split
    have outside := undisturbed earlier found taken later split
    simp only [List.length_cons] at outside ⊢
    omega

end Alternation
end CommentStrip
