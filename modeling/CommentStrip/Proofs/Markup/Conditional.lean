import CommentStrip.Proofs.Markup.Opening

/-! Conditional comments. The scanner does not take one for a comment, but it goes on inside it,
so such a comment survives exactly when no region opens behind its first character. -/
namespace CommentStrip.Markup
open Unicode Text

def written (keep : KeepSet) (delegate : Php.Delegate) (found : List (Piece Region)) : List Char :=
  (found.map fun piece => (scanPiece keep delegate piece).text).flatten

theorem joinText (parts : List Scanned) :
    (Scanned.join parts).text = parts.flatMap Scanned.text := by
  induction parts with
  | nil => rfl
  | cons part parts ih =>
    rw [List.flatMap_cons, ← ih]
    rfl

theorem writtenJoin (keep : KeepSet) (delegate : Php.Delegate) (found : List (Piece Region)) :
    (Scanned.join (found.map (scanPiece keep delegate))).text = written keep delegate found := by
  rw [joinText, List.flatMap_map, written, List.flatMap_def]

theorem writtenAppend (keep : KeepSet) (delegate : Php.Delegate) (a b : List (Piece Region)) :
    written keep delegate (a ++ b) = written keep delegate a ++ written keep delegate b := by
  simp [written]

theorem scanWritten {variant : MarkupVariant} (single : variant ≠ .jinja) (keep : KeepSet)
    (delegate : Php.Delegate) (text : List Char) :
    (scan variant keep delegate text).text = written keep delegate (pieces variant text) := by
  rw [← writtenJoin]
  cases variant with
  | jinja => exact absurd rfl single
  | html => rfl
  | blade => rfl

/- The search comes to a place where an HTML comment lies, and the comment is conditional. -/
structure Meets (variant : MarkupVariant) (text before raw behind : List Char) : Prop where
  seen : (alternation variant).Visits accepts text before.reverse (raw ++ behind)
  found : comment .html (raw ++ behind) = some (.comment .html raw.length)
  conditional : isConditional raw = true

/- The range of `raw` behind `before` is part of one gap, which is copied, and none of the regions
that are found starts in it. -/
structure Survives (variant : MarkupVariant) (keep : KeepSet) (delegate : Php.Delegate)
    (text before raw : List Char) : Prop where
  copied : ∃ earlier front back later,
    pieces variant text = earlier ++ .gap (front ++ raw ++ back) :: later ∧
      spelled earlier ++ front = before ∧
      (scan variant keep delegate text).text =
        written keep delegate earlier ++ (front ++ raw ++ back) ++ written keep delegate later
  undisturbed : ∀ earlier region taken later,
    pieces variant text = earlier ++ .hit region taken :: later →
      (spelled earlier).length < before.length ∨
        before.length + raw.length ≤ (spelled earlier).length

theorem meetsQuiet {variant : MarkupVariant} {text before raw behind : List Char}
    (met : Meets variant text before raw behind)
    (inside : ∀ front back region, raw = front ++ back → front ≠ [] → back ≠ [] →
      ¬ Opens variant (back ++ behind) region) :
    (alternation variant).Quiet accepts before.reverse raw behind := by
  intro front back same filled
  rw [Option.eq_none_iff_forall_ne_some]
  intro region accepted
  have opens := acceptedIff.mp accepted
  cases front with
  | nil =>
    -- At its first character only the comment itself could open.
    obtain rfl : raw = back := same
    cases opens with
    | @block kind opening body closing known found whole =>
      have promise := (blockPromised found).2
      rw [(commentPromised met.found).2] at promise
      cases promise
    | @comment kind extent known found plain =>
      have promise := (commentPromised found).2
      rw [(commentPromised met.found).2] at promise
      cases promise
      rw [met.found] at found
      cases found
      rw [List.take_left] at plain
      exact absurd met.conditional (by rw [plain rfl]; exact Bool.false_ne_true)
  | cons c front => exact inside (c :: front) back region same (by simp) filled opens

theorem quietSurvives {variant : MarkupVariant} (single : variant ≠ .jinja) (keep : KeepSet)
    (delegate : Php.Delegate) {text before raw behind : List Char}
    (met : Meets variant text before raw behind)
    (quiet : (alternation variant).Quiet accepts before.reverse raw behind) :
    Survives variant keep delegate text before raw := by
  have filled : raw ≠ [] := by
    intro same
    subst same
    exact commentWidth met.found rfl
  obtain ⟨earlier, front, back, later, split, told⟩ :=
    Alternation.visitsQuiet met.seen filled quiet
  rw [List.reverse_reverse] at told
  constructor
  · refine ⟨earlier, front, back, later, split, told, ?_⟩
    rw [scanWritten single]
    show written keep delegate ((alternation variant).search accepts text) = _
    rw [split, writtenAppend]
    simp [written, scanPiece, Scanned.copy]
  · intro others region taken rest found
    have place := congrArg List.length told
    simp only [List.length_append] at place
    rcases Alternation.hitOutsideGap split found with less | more
    · left
      omega
    · right
      simp only [List.length_append] at more
      omega

theorem survivesQuiet {variant : MarkupVariant} {keep : KeepSet} {delegate : Php.Delegate}
    {text before raw behind : List Char} (met : Meets variant text before raw behind)
    (survives : Survives variant keep delegate text before raw) :
    (alternation variant).Quiet accepts before.reverse raw behind := by
  refine Alternation.undisturbedQuiet met.seen ?_
  intro earlier region taken later split
  rw [List.length_reverse]
  exact survives.undisturbed earlier region taken later split

/- A conditional comment survives exactly when no block and no other comment opens at a place
behind its first character. -/
theorem conditionalSurvives {variant : MarkupVariant} (single : variant ≠ .jinja) (keep : KeepSet)
    (delegate : Php.Delegate) {text before raw behind : List Char}
    (met : Meets variant text before raw behind) :
    Survives variant keep delegate text before raw ↔
      ∀ front back region, raw = front ++ back → front ≠ [] → back ≠ [] →
        ¬ Opens variant (back ++ behind) region := by
  constructor
  · intro survives front back region same _ filled opens
    have passed := survivesQuiet met survives front back same filled
    rw [acceptedIff.mpr opens] at passed
    cases passed
  · intro inside
    exact quietSurvives single keep delegate met (meetsQuiet met inside)

theorem conditionalSurvivesOlder :
    Meets .html "<!--[if IE]>x<![endif]-->".toList [] "<!--[if IE]>x<![endif]-->".toList [] ∧
      Survives .html .empty Php.noDelegate "<!--[if IE]>x<![endif]-->".toList []
        "<!--[if IE]>x<![endif]-->".toList := by
  have met : Meets .html "<!--[if IE]>x<![endif]-->".toList []
      "<!--[if IE]>x<![endif]-->".toList [] := by
    refine ⟨?_, by decide, by decide⟩
    rw [List.append_nil]
    exact .start
  have quiet : ∀ i : Fin 25, 0 < i.val → (alternation .html).accepted? accepts []
      ("<!--[if IE]>x<![endif]-->".toList.drop i) = none := by decide
  refine ⟨met, (conditionalSurvives (by decide) .empty Php.noDelegate met).mpr ?_⟩
  intro front back region same begun filled opens
  have long := List.length_pos_iff.mpr begun
  have more := List.length_pos_iff.mpr filled
  have whole := congrArg List.length same
  have total : "<!--[if IE]>x<![endif]-->".toList.length = 25 := rfl
  rw [List.length_append, total] at whole
  have passed := quiet ⟨front.length, by omega⟩ long
  rw [same, List.drop_left, ← List.append_nil back] at passed
  rw [acceptedIff.mpr opens] at passed
  cases passed

/- What newer browsers show between the two comments lies in a comment that opens inside the
first one. -/
theorem revealedMarkupBlanked :
    Meets .html "<!--[if !IE]><!--><p>x</p><!--<![endif]-->".toList [] "<!--[if !IE]><!-->".toList
        "<p>x</p><!--<![endif]-->".toList ∧
      ¬ Survives .html .empty Php.noDelegate "<!--[if !IE]><!--><p>x</p><!--<![endif]-->".toList []
        "<!--[if !IE]><!-->".toList ∧
      (scan .html .empty Php.noDelegate
        "<!--[if !IE]><!--><p>x</p><!--<![endif]-->".toList).text =
          "<!--[if !IE]>".toList ++ List.replicate 29 ' ' := by
  refine ⟨⟨.start, by decide, by decide⟩, ?_, by decide +kernel⟩
  intro survives
  have split : pieces .html "<!--[if !IE]><!--><p>x</p><!--<![endif]-->".toList =
      [.gap "<!--[if !IE]>".toList,
        .hit (.comment .html 29) "<!--><p>x</p><!--<![endif]-->".toList] := by decide +kernel
  have outside := survives.undisturbed [.gap "<!--[if !IE]>".toList] _ _ [] split
  revert outside
  decide

end CommentStrip.Markup
