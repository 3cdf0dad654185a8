import CommentStrip.CStyle.Classify
import CommentStrip.Proofs.Hits

/-! The search as a loop around an engine that is asked for the leftmost match from a place on. It
comes to the same hits, and overlooks nothing: a match outside of them was vetoed. -/
namespace CommentStrip
open Text

namespace Alternation
variable {μ : Type} {a : Alternation μ} {accept : Acceptance μ} {text : List Char}
  {next : List Char → List Char → Option (Nat × μ)}

/- From a place of the text on, `next` tells how many characters come before the first place where
the alternation matches, and what matches there. It is given the text in front of the place, latest
character first, and the text that follows. -/
structure LeftmostFirst (a : Alternation μ) (text : List Char)
    (next : List Char → List Char → Option (Nat × μ)) : Prop where
  first : ∀ {before here passed found}, text = before.reverse ++ here →
    next before here = some (passed, found) →
      a.matchAt (here.drop passed) = some found ∧
        ∀ earlier < passed, a.matchAt (here.drop earlier) = none
  never : ∀ {before here}, text = before.reverse ++ here → next before here = none →
    ∀ passed ≤ here.length, a.matchAt (here.drop passed) = none

def frontAt (passed : Nat) (before here : List Char) : List Char :=
  (here.take passed).reverse ++ before

/- After a find that is accepted the loop goes on at its end, after one that is vetoed or empty one
character behind its start, so that what lies inside can still be found. -/
def resumed (a : Alternation μ) (accept : Acceptance μ)
    (next : List Char → List Char → Option (Nat × μ)) (before here : List Char) : List (Hit μ) :=
  match next before here with
  | none => []
  | some (passed, found) =>
    match _ : here.drop passed with
    -- Behind the last character there is nothing to find.
    | [] => []
    | c :: rest =>
      if a.width found ≠ 0 ∧ accept (frontAt passed before here) found (c :: rest) = true then
        ⟨byteLength (frontAt passed before here), found, c :: rest.take (a.width found - 1)⟩ ::
          resumed a accept next
            ((c :: rest.take (a.width found - 1)).reverse ++ frontAt passed before here)
            (rest.drop (a.width found - 1))
      else resumed a accept next (c :: frontAt passed before here) rest
termination_by here.length
decreasing_by
  all_goals
    rename_i met _
    have size := congrArg List.length met
    simp only [List.length_drop, List.length_cons] at size ⊢
    omega

theorem frontAtText {before here : List Char} (cut : text = before.reverse ++ here) (passed : Nat) :
    text = (frontAt passed before here).reverse ++ here.drop passed := by
  rw [cut, frontAt, List.reverse_append, List.reverse_reverse, List.append_assoc,
    List.take_append_drop]

theorem frontAtBytes (passed : Nat) (before here : List Char) :
    byteLength (frontAt passed before here) =
      byteLength before + byteLength (here.take passed) := by
  rw [frontAt, byteLengthAppend, byteLengthReverse, Nat.add_comm]

theorem quietSkipped {before here : List Char} {passed : Nat}
    (nowhere : ∀ earlier < passed, a.matchAt (here.drop earlier) = none) :
    Quiet a accept before (here.take passed) (here.drop passed) := by
  intro front back same filled
  have short : front.length < passed := by
    have size := congrArg List.length same
    have long := List.length_pos_iff.mpr filled
    simp only [List.length_append, List.length_take] at size
    omega
  have rest : here.drop front.length = back ++ here.drop passed := by
    conv => lhs; rw [← List.take_append_drop passed here, same, List.append_assoc]
    exact List.drop_left
  rw [accepted?, ← rest, nowhere _ short]
  rfl

theorem searchSkipped {before gap here : List Char} {passed : Nat}
    (nowhere : ∀ earlier < passed, a.matchAt (here.drop earlier) = none) :
    a.searchFrom accept before gap here =
      a.searchFrom accept (frontAt passed before here) (frontAt passed gap here)
        (here.drop passed) := by
  have whole : a.searchFrom accept before gap (here.take passed ++ here.drop passed) = _ :=
    searchQuiet (quietSkipped nowhere)
  rwa [List.take_append_drop] at whole

/- The loop comes to the hits of the search. The gap that is open counts for where it stands. -/
theorem resumedSame (engine : LeftmostFirst a text next) {before gap here : List Char}
    {position : Nat} (cut : text = before.reverse ++ here)
    (place : byteLength before = position + byteLength gap) :
    a.resumed accept next before here = hitsFrom position (a.searchFrom accept before gap here) := by
  -- What the engine passes over at once the search passes one by one.
  fun_induction resumed a accept next before here generalizing gap position with
  | case1 before here asked =>
    have nowhere : ∀ earlier < here.length, a.matchAt (here.drop earlier) = none :=
      fun earlier short => engine.never cut asked earlier (Nat.le_of_lt short)
    rw [searchSkipped nowhere, List.drop_length, searchFrom, hitsGap]
    rfl
  | case2 before here passed found asked met =>
    rw [searchSkipped (engine.first cut asked).2, met, searchFrom, hitsGap]
    rfl
  | case3 before here passed found asked c rest met good ih =>
    obtain ⟨matched, nowhere⟩ := engine.first cut asked
    rw [met] at matched
    have spoke := (acceptedRead matched).trans (if_pos good)
    have start : position + byteLength (frontAt passed gap here) =
        byteLength (frontAt passed before here) := by
      rw [frontAtBytes, frontAtBytes, place, Nat.add_assoc]
    rw [searchSkipped nowhere, met, searchOver spoke, hitsGap, start]
    refine congrArg (_ :: ·) (ih ?_ ?_)
    · rw [frontAtText cut passed, met]
      simp
    · rw [byteLengthAppend, byteLengthReverse, byteLengthNil]
      omega
  | case4 before here passed found asked c rest met bad ih =>
    obtain ⟨matched, nowhere⟩ := engine.first cut asked
    rw [met] at matched
    have turnedDown := (acceptedRead matched).trans (if_neg bad)
    rw [searchSkipped nowhere, met, searchPast turnedDown]
    refine ih ?_ ?_
    · rw [frontAtText cut passed, met]
      simp
    · rw [byteLengthCons, byteLengthCons, frontAtBytes, frontAtBytes, place]
      omega

theorem firstWhereLeftmost (a : Alternation μ) (text : List Char) :
    a.LeftmostFirst text fun _ here => firstWhere a.matchAt here where
  first := by
    intro before here passed found _ asked
    exact ⟨firstWhereHolds asked, fun earlier short => firstWhereFirst asked short⟩
  never := by
    intro before here _ asked passed _
    exact firstWhereNever asked passed

/- Nothing is overlooked. The hits stand in the text one behind the other, each accepted where it was
read. A place has one match, that of the first branch that matches there: where no hit takes the
place there is none but an empty one, or it was vetoed. -/
structure Thorough (a : Alternation μ) (accept : Acceptance μ) (text : List Char)
    (hits : List (Hit μ)) : Prop where
  lie : ∀ h ∈ hits, h.start < h.stop ∧ ∃ front back, a.Lies accept text h front back
  apart : hits.Pairwise fun g h => g.start < h.start ∧ g.stop ≤ h.start
  outside : ∀ front c rest, text = front ++ c :: rest →
    (∀ h ∈ hits, byteLength front < h.start ∨ h.stop ≤ byteLength front) →
      (∀ found, a.matchAt (c :: rest) = some found → a.width found = 0) ∨
        ∃ found, a.matchAt (c :: rest) = some found ∧
          accept front.reverse found (c :: rest) = false
  /-- Where no branch matches the empty text, only a veto leaves a match outside. -/
  outsideFilled : (∀ branch ∈ a.branches, ∀ here found, branch here = some found →
      a.width found ≠ 0) →
    ∀ front c rest, text = front ++ c :: rest →
      (∀ h ∈ hits, byteLength front < h.start ∨ h.stop ≤ byteLength front) →
        (∀ branch ∈ a.branches, branch (c :: rest) = none) ∨
          ∃ found, a.matchAt (c :: rest) = some found ∧
            accept front.reverse found (c :: rest) = false

theorem Lies.long {h : Hit μ} {front back : List Char} (lies : a.Lies accept text h front back) :
    h.start < h.stop := by
  have filled := byteLengthPositive lies.filled
  rw [lies.start, lies.stop, byteLengthAppend]
  omega

theorem hitsOutside {front rest : List Char} {c : Char} (cut : text = front ++ c :: rest)
    (free : ∀ h ∈ a.hits accept text, byteLength front < h.start ∨ h.stop ≤ byteLength front) :
    a.accepted? accept front.reverse (c :: rest) = none := by
  rw [Option.eq_none_iff_forall_ne_some]
  intro found spoke
  obtain ⟨h, member, low, high⟩ := acceptedCovered cut (List.cons_ne_nil c rest) spoke
  rcases free h member with ahead | behind
  · exact absurd low (Nat.not_le_of_lt ahead)
  · exact absurd high (Nat.not_lt_of_le behind)

theorem hitsThorough (a : Alternation μ) (accept : Acceptance μ) (text : List Char) :
    a.Thorough accept text (a.hits accept text) where
  lie := by
    intro h member
    obtain ⟨front, back, lies⟩ := hitsLie member
    exact ⟨lies.long, front, back, lies⟩
  apart := by
    refine (hitsOrdered 0 (a.search accept text)).imp_of_mem fun member _ behind => ⟨?_, behind⟩
    obtain ⟨front, back, lies⟩ := hitsLie member
    exact Nat.lt_of_lt_of_le lies.long behind
  outside := by
    intro front c rest cut free
    exact passedIff.mp (hitsOutside cut free)
  outsideFilled := by
    intro filled front c rest cut free
    rcases passedIff.mp (hitsOutside cut free) with empty | vetoed
    · left
      have unmatched : a.matchAt (c :: rest) = none := by
        rw [Option.eq_none_iff_forall_ne_some]
        intro found matched
        obtain ⟨branch, known, spoke⟩ := List.exists_of_findSome?_eq_some matched
        exact filled branch known _ found spoke (empty found matched)
      exact List.findSome?_eq_none_iff.mp unmatched
    · exact .inr vetoed

/- Branches may look at the text in front of a place as well: on one text, what follows a place tells
what lies in front of it. -/
theorem lookBack (text : List Char) (branches : List (List Char → List Char → Option μ))
    (width : μ → Nat) :
    ∃ a : Alternation μ, a.width = width ∧ ∀ before here, text = before.reverse ++ here →
      a.matchAt here = branches.findSome? fun branch => branch before here := by
  let ahead (here : List Char) := (text.take (text.length - here.length)).reverse
  refine ⟨⟨branches.map fun branch here => branch (ahead here) here, width⟩, rfl, ?_⟩
  intro before here cut
  have told : ahead here = before := by simp [ahead, cut]
  rw [matchAt, List.findSome?_map, ← told]
  rfl

/- Whatever the alternation, the engine that tells its leftmost matches, the text and the veto, the
loop comes to the hits of the search and overlooks nothing. -/
theorem resumedMissesNothing (accept : Acceptance μ) (engine : a.LeftmostFirst text next) :
    a.resumed accept next [] text = a.hits accept text ∧
      a.Thorough accept text (a.resumed accept next [] text) := by
  have same : a.resumed accept next [] text = hitsFrom 0 (a.searchFrom accept [] [] text) :=
    resumedSame engine rfl rfl
  rw [same]
  exact ⟨rfl, hitsThorough a accept text⟩

theorem resumedMissesNothingAttribute :
    let a := CStyle.alternation .php
    let text := "é#[x] 'q' # c".toList
    let next := fun (_ here : List Char) => firstWhere a.matchAt here
    a.LeftmostFirst text next ∧
      a.resumed CStyle.accepts next [] text =
        [⟨7, ⟨.singleQuoted, 3⟩, "'q'".toList⟩, ⟨11, ⟨.hashComment, 3⟩, "# c".toList⟩] ∧
      a.matchAt "#[x] 'q' # c".toList = some ⟨.hashComment, 12⟩ ∧
      a.Thorough CStyle.accepts text (a.resumed CStyle.accepts next [] text) := by
  intro a text next
  have engine : a.LeftmostFirst text next := firstWhereLeftmost a text
  obtain ⟨-, thorough⟩ := resumedMissesNothing CStyle.accepts engine
  exact ⟨engine, by decide +kernel, by decide +kernel, thorough⟩

end Alternation
end CommentStrip
