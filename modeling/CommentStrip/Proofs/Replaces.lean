import CommentStrip.Proofs.Search
import CommentStrip.Proofs.Text.Blanked

/-! A search whose finds give way to something else, as a relation between the text and what
becomes of it. -/
namespace CommentStrip
variable {μ : Type}

def replaced (leave : μ → List Char → List Char) (found : List (Piece μ)) : List Char :=
  found.flatMap fun piece => match piece with
    | .gap text => text
    | .hit found text => leave found text

namespace Alternation

inductive Replaces (a : Alternation μ) (accept : Acceptance μ) (leave : μ → List Char → List Char) :
    (before here out : List Char) → Prop where
  | done {before} : Replaces a accept leave before [] []
  | past {before c rest out} (passed : a.accepted? accept before (c :: rest) = none)
      (later : Replaces a accept leave (c :: before) rest out) :
      Replaces a accept leave before (c :: rest) (c :: out)
  | taken {before taken rest found out} (filled : taken ≠ [])
      (long : a.width found = taken.length)
      (spoke : a.accepted? accept before (taken ++ rest) = some found)
      (later : Replaces a accept leave (taken.reverse ++ before) rest out) :
      Replaces a accept leave before (taken ++ rest) (leave found taken ++ out)

def Inside (a : Alternation μ) : Prop :=
  ∀ {here : List Char} {found : μ}, a.matchAt here = some found → a.width found ≤ here.length

section
variable {a : Alternation μ} {accept : Acceptance μ} {leave : μ → List Char → List Char}

theorem replacedGap (gap : List Char) (later : List (Piece μ)) :
    replaced leave (closeGap gap later) = gap.reverse ++ replaced leave later := by
  unfold closeGap
  split
  · rename_i empty
    simp [List.isEmpty_iff.mp empty]
  · rfl

theorem replacedHit (found : μ) (taken : List Char) (later : List (Piece μ)) :
    replaced leave (.hit found taken :: later) = leave found taken ++ replaced leave later := rfl

theorem takenLength (inside : a.Inside) {before rest : List Char} {c : Char} {found : μ}
    (spoke : a.accepted? accept before (c :: rest) = some found) :
    (c :: rest.take (a.width found - 1)).length = a.width found := by
  obtain ⟨matched, filled⟩ := acceptedMatch spoke
  have bound := inside matched
  simp only [List.length_cons, List.length_take] at bound ⊢
  omega

theorem hitWidth (inside : a.Inside) {before gap here taken : List Char} {found : μ}
    (member : .hit found taken ∈ a.searchFrom accept before gap here) :
    a.width found = taken.length := by
  fun_induction searchFrom a accept before gap here with
  | case1 before gap =>
    rcases closeGapMember member with ⟨same, -⟩ | inside
    · cases same
    · cases inside
  | case2 before gap c rest read spoke more piece ih =>
    rcases closeGapMember member with ⟨same, -⟩ | within
    · cases same
    · rcases List.mem_cons.mp within with same | later
      · obtain ⟨rfl, rfl⟩ := Piece.hit.inj same
        exact (takenLength inside spoke).symm
      · exact ih later
  | case3 before gap c rest passed ih => exact ih member

theorem replacesSearch (inside : a.Inside) (before gap here : List Char) :
    ∃ out, replaced leave (a.searchFrom accept before gap here) = gap.reverse ++ out ∧
      Replaces a accept leave before here out := by
  fun_induction searchFrom a accept before gap here with
  | case1 before gap => exact ⟨[], replacedGap gap [], .done⟩
  | case2 before gap c rest found spoke more taken ih =>
    obtain ⟨out, leaves, replaces⟩ := ih
    have long : a.width found = taken.length := (takenLength inside spoke).symm
    have whole : c :: rest = taken ++ rest.drop more := by simp [taken]
    refine ⟨leave found taken ++ out, ?_, ?_⟩
    · rw [replacedGap, replacedHit, leaves]
      rfl
    · rw [whole] at spoke ⊢
      exact .taken (by simp [taken]) long spoke replaces
  | case3 before gap c rest passed ih =>
    obtain ⟨out, leaves, replaces⟩ := ih
    exact ⟨c :: out, by rw [leaves]; simp, .past passed replaces⟩

theorem replacesUnique {before here out : List Char}
    (replaces : Replaces a accept leave before here out) (gap : List Char) :
    replaced leave (a.searchFrom accept before gap here) = gap.reverse ++ out := by
  induction replaces generalizing gap with
  | done =>
    rw [searchFrom, replacedGap]
    rfl
  | @past before c rest out passed later ih =>
    rw [searchPast passed, ih]
    simp
  | @taken before taken rest found out filled long spoke later ih =>
    rw [searchTaken filled long spoke, replacedGap, replacedHit, ih]
    rfl

theorem replacesIff (inside : a.Inside) {text out : List Char} :
    Replaces a accept leave [] text out ↔ replaced leave (a.search accept text) = out := by
  constructor
  · intro replaces
    exact replacesUnique replaces []
  · intro same
    have found : ∃ out, replaced leave (a.search accept text) = out ∧
        Replaces a accept leave [] text out := replacesSearch inside [] [] text
    obtain ⟨out', leaves, replaces⟩ := found
    obtain rfl : out' = out := leaves.symm.trans same
    exact replaces

theorem replacesBlanked {before here out : List Char}
    (replaces : Replaces a accept leave before here out)
    (each : ∀ {taken rest : List Char} {found : μ}, taken ≠ [] →
      a.matchAt (taken ++ rest) = some found → Text.Blanked taken (leave found taken)) :
    Text.Blanked here out := by
  induction replaces with
  | done => exact .nil
  | past passed later ih => exact .same ih
  | taken filled long spoke later ih => exact (each filled (acceptedMatch spoke).1).append ih

/- Two texts of one length in which the search finds the same: at each place of the first the same
find, and each find with its text. -/
structure SameFinds (a : Alternation μ) (accept : Acceptance μ) (text other : List Char) :
    Prop where
  finds : ∀ {before here}, Visits a accept text before here →
    a.accepted? accept before here =
      a.accepted? accept (other.take before.length).reverse (other.drop before.length)
  stands : ∀ {before taken rest found}, Visits a accept text before (taken ++ rest) →
    a.accepted? accept before (taken ++ rest) = some found → a.width found = taken.length →
      taken <+: other.drop before.length

theorem replacesSame {text other before here out : List Char}
    (replaces : Replaces a accept leave before here out) (stays : out = here)
    (same : SameFinds a accept text other)
    (even : ∀ {taken rest : List Char} {found : μ}, taken ≠ [] →
      a.matchAt (taken ++ rest) = some found → (leave found taken).length = taken.length)
    (seen : Visits a accept text before here) {before' here' : List Char}
    (whole : other = before'.reverse ++ here') (front : before'.length = before.length)
    (back : here'.length = here.length) : Replaces a accept leave before' here' here' := by
  have place : ∀ {before before' here' : List Char}, other = before'.reverse ++ here' →
      before'.length = before.length →
        (other.take before.length).reverse = before' ∧ other.drop before.length = here' := by
    intro before before' here' whole front
    rw [whole, ← front, ← List.length_reverse, List.take_left, List.drop_left,
      List.reverse_reverse]
    exact ⟨rfl, rfl⟩
  induction replaces generalizing before' here' with
  | done =>
    obtain rfl := List.length_eq_zero_iff.mp back
    exact .done
  | @past before c rest out passed later ih =>
    obtain ⟨d, rest', rfl⟩ := List.exists_cons_of_length_eq_add_one back
    have finds := same.finds seen
    rw [(place whole front).1, (place whole front).2, passed] at finds
    exact .past finds.symm (ih (List.cons.inj stays).2 (.past seen passed) (by simp [whole])
      (by simp [front]) (by simpa using back))
  | @taken before taken rest found out filled long spoke later ih =>
    obtain ⟨left, right⟩ := List.append_inj stays (even filled (acceptedMatch spoke).1)
    have finds := same.finds seen
    have stands := same.stands seen spoke long
    rw [(place whole front).1, (place whole front).2, spoke] at finds
    rw [(place whole front).2] at stands
    obtain ⟨rest', rfl⟩ := stands
    have behind : Replaces a accept leave (taken.reverse ++ before') rest' rest' :=
      ih right (visitsOver filled long spoke seen) (by simp [whole]) (by simp [front])
        (by simpa using back)
    have step : Replaces a accept leave before' (taken ++ rest') (leave found taken ++ rest') :=
      .taken filled long finds.symm behind
    rwa [left] at step

theorem sameFindsEverywhere {text other : List Char}
    (each : ∀ n < text.length + 1,
      a.accepted? accept (text.take n).reverse (text.drop n) =
          a.accepted? accept (other.take n).reverse (other.drop n) ∧
        ∀ found ∈ a.accepted? accept (text.take n).reverse (text.drop n),
          (text.drop n).take (a.width found) <+: other.drop n) : SameFinds a accept text other := by
  refine ⟨?_, ?_⟩
  · intro before here seen
    obtain ⟨inside, front, back⟩ := visitsPlace seen
    have same := (each before.length inside).1
    rwa [front, back] at same
  · intro before taken rest found seen spoke long
    obtain ⟨inside, front, back⟩ := visitsPlace seen
    have stands := (each before.length inside).2
    rw [front, back] at stands
    have here := stands found spoke
    rwa [long, List.take_left] at here

theorem replacesQuiet {before raw behind out : List Char}
    (replaces : Replaces a accept leave before (raw ++ behind) out)
    (quiet : Quiet a accept before raw behind) :
    ∃ out', out = raw ++ out' ∧ Replaces a accept leave (raw.reverse ++ before) behind out' := by
  induction raw generalizing before out with
  | nil => exact ⟨out, rfl, replaces⟩
  | cons c raw ih =>
    have passed := quiet.head
    have step : ∃ out', out = c :: out' ∧
        Replaces a accept leave (c :: before) (raw ++ behind) out' := by
      generalize same : c :: raw ++ behind = here at replaces
      cases replaces with
      | done => cases same
      | past _ later =>
        cases same
        exact ⟨_, rfl, later⟩
      | taken filled long spoke later =>
        rw [← same, List.cons_append, passed] at spoke
        cases spoke
    obtain ⟨out, rfl, later⟩ := step
    obtain ⟨out', rfl, behind⟩ := ih later quiet.tail
    refine ⟨out', rfl, ?_⟩
    simpa using behind

theorem replacesOver {before raw behind out : List Char}
    (quiet : Quiet a accept before raw behind)
    (later : Replaces a accept leave (raw.reverse ++ before) behind out) :
    Replaces a accept leave before (raw ++ behind) (raw ++ out) := by
  induction raw generalizing before with
  | nil => exact later
  | cons c raw ih =>
    refine .past quiet.head (ih quiet.tail ?_)
    simpa using later

end
end Alternation
end CommentStrip
