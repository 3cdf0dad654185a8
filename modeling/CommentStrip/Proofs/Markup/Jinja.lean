import CommentStrip.Proofs.Markup.Rescan

/-! The second pass over a Jinja template. It reads no context, so what it left once it leaves
again, and only the first pass can find something new in it. -/
namespace CommentStrip.Markup
open Unicode Text

def anywhere : Alternation.Acceptance Nat := fun _ _ _ => true

theorem jinjaMatch (here : List Char) :
    jinjaAlternation.matchAt here = enclosed ['{', '#'] ['#', '}'] here := by
  simp only [Alternation.matchAt, jinjaAlternation, List.findSome?_cons, List.findSome?_nil]
  cases enclosed ['{', '#'] ['#', '}'] here <;> rfl

theorem jinjaRead {before here : List Char} {n : Nat} :
    jinjaAlternation.accepted? anywhere before here = some n ↔
      enclosed ['{', '#'] ['#', '}'] here = some n := by
  rw [Alternation.acceptedIff, jinjaMatch]
  constructor
  · exact And.left
  · intro found
    obtain ⟨inside, body, -, -, rfl⟩ := enclosedIff.mp found
    exact ⟨found, by simp [jinjaAlternation, anywhere]⟩

theorem jinjaInside : jinjaAlternation.Inside := by
  intro here n found
  obtain ⟨branch, known, spoke⟩ := List.exists_of_findSome?_eq_some found
  obtain rfl := List.mem_singleton.mp known
  exact enclosedInside spoke

section
variable {keep : KeepSet}

def jinjaRemainder (keep : KeepSet) (_width : Nat) (raw : List Char) : List Char :=
  (scanComment keep raw).text

theorem jinjaReplaced (text : List Char) :
    (jinjaPass keep text).text =
      replaced (jinjaRemainder keep) (jinjaAlternation.search anywhere text) := by
  show (Scanned.join ((jinjaAlternation.search anywhere text).map _)).text = _
  rw [joinText, List.flatMap_map, replaced]
  congr 1
  funext piece
  cases piece <;> rfl

theorem jinjaPassed {before rest out : List Char} {c : Char}
    (passed : jinjaAlternation.accepted? anywhere before (c :: rest) = none)
    (blanked : Blanked rest out) (before' : List Char) :
    jinjaAlternation.accepted? anywhere before' (c :: out) = none := by
  rw [Option.eq_none_iff_forall_ne_some]
  intro n spoke
  obtain ⟨m, found, -⟩ :=
    enclosedStays (by simp) (by simp) (Blanked.same blanked) (jinjaRead.mp spoke)
  rw [jinjaRead.mpr found] at passed
  cases passed

theorem jinjaQuiet {before raw behind : List Char} (plain : ∀ c ∈ raw, ¬ isSign c) :
    jinjaAlternation.Quiet anywhere before raw behind := by
  refine Alternation.quietEach ?_ before behind
  intro c member before rest
  rw [Option.eq_none_iff_forall_ne_some]
  intro n spoke
  obtain ⟨here, begins⟩ := enclosedHead (jinjaRead.mp spoke)
  obtain ⟨rfl, -⟩ := List.cons.inj begins
  exact plain '{' member (.inr (.inr rfl))

theorem jinjaAgain {before here out : List Char}
    (scanned : jinjaAlternation.Replaces anywhere (jinjaRemainder keep) before here out)
    (before' : List Char) :
    jinjaAlternation.Replaces anywhere (jinjaRemainder keep) before' out out := by
  induction scanned generalizing before' with
  | done => exact .done
  | @past before c rest out passed later ih =>
    have blanked := Alternation.replacesBlanked later fun _ _ => commentBlanked keep _
    exact .past (jinjaPassed passed blanked before') (ih (c :: before'))
  | @taken before taken rest n out filled long spoke later ih =>
    refine commentAgain (fun _ => rfl) filled long ?_ (jinjaQuiet (blankPlain taken)) (ih _)
    have found := jinjaRead.mp spoke
    obtain rfl : n = taken.length := long
    exact jinjaRead.mpr (enclosedAgain found out)

theorem jinjaPassTwice (text : List Char) :
    (jinjaPass keep (jinjaPass keep text).text).text = (jinjaPass keep text).text := by
  have first : jinjaAlternation.Replaces anywhere (jinjaRemainder keep) [] text
      (jinjaPass keep text).text := (Alternation.replacesIff jinjaInside).mpr (jinjaReplaced text).symm
  rw [jinjaReplaced (jinjaPass keep text).text]
  exact (Alternation.replacesIff jinjaInside).mp (jinjaAgain first [])

end

/- A Jinja template is left as it is exactly when its blocks and comments are. -/
theorem jinjaTwice (keep : KeepSet) {delegate : Php.Delegate} (fails : Php.Fails delegate)
    (text : List Char) :
    (scan .jinja keep delegate (scan .jinja keep delegate text).text).text =
        (scan .jinja keep delegate text).text ↔
      (scan .html keep delegate (scan .jinja keep delegate text).text).tally.removed = 0 := by
  generalize once : (scan .jinja keep delegate text).text = stripped
  have second := scanBlanks keep fails .jinja stripped
  constructor
  · intro same
    have none := second.removal.same.mp same
    exact (Nat.add_eq_zero_iff.mp none).1
  · intro none
    have same := (scanBlanks keep fails .html stripped).removal.same.mpr none
    show (jinjaPass keep (scan .html keep delegate stripped).text).text = stripped
    rw [same, ← once]
    exact jinjaPassTwice _

/- What the first pass leaves it leaves again when its blocks stay, and the second pass does not
bring it back to work when it leaves all that the first one finds. -/
theorem jinjaSettles {keep : KeepSet} {delegate : Php.Delegate} (fails : Php.Fails delegate)
    {text : List Char} (blocks : SameBlocks .html keep text (scan .html keep delegate text).text)
    (finds : (alternation .html).SameFinds accepts (scan .html keep delegate text).text
      (scan .jinja keep delegate text).text) :
    (scan .html keep delegate (scan .jinja keep delegate text).text).tally.removed = 0 := by
  have once : (scan .html keep delegate (scan .html keep delegate text).text).text =
      (scan .html keep delegate text).text := scanTwice fails (by decide) blocks
  have second : (scan .jinja keep delegate text).text =
      (jinjaPass keep (scan .html keep delegate text).text).text := rfl
  rw [second] at finds ⊢
  generalize (scan .html keep delegate text).text = first at once finds
  have scanned : (alternation .html).Replaces accepts (remainder keep delegate) [] first first := by
    rw [Alternation.replacesIff (matchInside .html), ← writtenReplaced]
    exact (scanWritten (by decide) keep delegate first).symm.trans once
  have again : (alternation .html).Replaces accepts (remainder keep delegate) []
      (jinjaPass keep first).text (jinjaPass keep first).text :=
    Alternation.replacesSame scanned rfl finds
      (fun filled found => (hitBlanks keep fails found filled).blanked.length) .start rfl rfl
      (jinjaBlanks keep first).blanked.length
  rw [Alternation.replacesIff (matchInside .html), ← writtenReplaced] at again
  refine (scanBlanks keep fails .html _).removal.same.mp ?_
  exact (scanWritten (by decide) keep delegate _).trans again

end CommentStrip.Markup
