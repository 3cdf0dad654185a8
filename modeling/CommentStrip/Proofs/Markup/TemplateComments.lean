import CommentStrip.Proofs.Markup.Kept
import CommentStrip.Proofs.Session

/-! The comments in braces with a hash that a Jinja template had before the first pass. The second
pass blanks one of them as a whole when the first pass left both its delimiters; the first pass
knows nothing of them and may take one delimiter away with a comment of its own. -/
namespace CommentStrip.Markup
open Text

structure Encloses (text : List Char) (position width : Nat) : Prop where
  long : 4 ≤ width
  opens : Stands text position ['{', '#']
  closes : Stands text (position + width - 2) ['#', '}']
  first : ∀ e, position + 2 ≤ e → Stands text e ['#', '}'] → position + width - 2 ≤ e

theorem standsStarts {text raw : List Char} {position : Nat} :
    Stands text position raw ↔ startsWith raw (text.drop position) = true := by
  rw [startsWithPrefix, List.prefix_iff_eq_take, Stands, eq_comm]

theorem closesBehind {text inside : List Char} {position : Nat}
    (cut : text.drop position = ['{', '#'] ++ inside) (e : Nat) :
    startsWith ['#', '}'] (inside.drop e) = true ↔ Stands text (position + 2 + e) ['#', '}'] := by
  have behind : text.drop (position + 2) = inside := by rw [← List.drop_drop, cut]; rfl
  rw [standsStarts, ← List.drop_drop, behind]

theorem enclosesIff {text : List Char} {position width : Nat} :
    enclosed ['{', '#'] ['#', '}'] (text.drop position) = some width ↔
      Encloses text position width := by
  rw [enclosedIff]
  simp only [List.length_cons, List.length_nil, Nat.reduceAdd]
  constructor
  · rintro ⟨inside, body, cut, reached, rfl⟩
    obtain ⟨e, rfl, ends⟩ := throughEnds reached
    simp only [List.length_cons, List.length_nil, Nat.reduceAdd] at reached ⊢
    have last : position + (2 + (e + 2)) - 2 = position + 2 + e := by omega
    refine ⟨by omega, standsStarts.mpr (startsWithIff.mpr ⟨inside, cut⟩), ?_, ?_⟩
    · rw [last]
      exact (closesBehind cut e).mp ends
    · intro later past closes
      obtain ⟨more, rfl⟩ := Nat.exists_eq_add_of_le past
      obtain ⟨n, sooner, near⟩ := throughFirst ((closesBehind cut more).mpr closes)
      cases reached.symm.trans sooner
      simp only [List.length_cons, List.length_nil, Nat.reduceAdd] at near
      omega
  · rintro ⟨long, opens, closes, first⟩
    obtain ⟨inside, cut⟩ := startsWithIff.mp (standsStarts.mp opens)
    have last : position + width - 2 = position + 2 + (width - 4) := by omega
    rw [last] at closes
    obtain ⟨n, reached, near⟩ := throughFirst ((closesBehind cut (width - 4)).mpr closes)
    obtain ⟨e, rfl, ends⟩ := throughEnds reached
    have least := first _ (by omega) ((closesBehind cut e).mp ends)
    simp only [List.length_cons, List.length_nil, Nat.reduceAdd] at near
    exact ⟨inside, _, cut, reached, by simp only [List.length_cons, List.length_nil, Nat.reduceAdd]; omega⟩

theorem Encloses.brace {text : List Char} {position width : Nat}
    (encloses : Encloses text position width) : text[position]? = some '{' :=
  standsIff.mp encloses.opens 0 '{' rfl

/- Two comments of which one begins within the other end together, unless the first ends with the
hash that opens the second. -/
theorem enclosesTogether {text : List Char} {q w position width : Nat} (outer : Encloses text q w)
    (inner : Encloses text position width) (earlier : q < position) (covers : position < q + w)
    (apart : text[position + 2]? ≠ some '}') : q + w = position + width := by
  have long := outer.long
  have wide := inner.long
  have brace := inner.brace
  have ends := outer.first _ (by omega) inner.closes
  have mark := standsIff.mp outer.closes 0 '#' rfl
  have closing := standsIff.mp outer.closes 1 '}' rfl
  by_cases far : position + 2 ≤ q + w - 2
  · have begins := inner.first _ far outer.closes
    omega
  · exfalso
    have near : q + w - 2 + 1 = position ∨ q + w - 2 + 0 = position ∨ q + w - 2 + 1 = position + 2 := by
      omega
    rcases near with same | same | same
    · rw [same, brace] at closing
      cases closing
    · rw [same, brace] at mark
      cases mark
    · rw [same] at closing
      exact apart closing

theorem struckHit (keep : KeepSet) (earlier later : List (Piece Nat)) (n : Nat) (raw : List Char)
    {i : Nat} (past : (spelled earlier).length ≤ i)
    (inside : i < (spelled earlier).length + raw.length) :
    struck keep (earlier ++ .hit n raw :: later) i = !keep.holds raw := by
  induction earlier generalizing i with
  | nil =>
    have short : i < raw.length := by simpa [spelled] using inside
    rw [List.nil_append, struck, if_pos (by exact short), strikes]
  | cons piece earlier ih =>
    have size : (spelled (piece :: earlier)).length = piece.text.length + (spelled earlier).length := by
      simp [spelled]
    rw [List.cons_append, struck, if_neg (by omega)]
    exact ih (by omega) (by omega)

section
variable {text : List Char}

theorem visitStruck {before rest : List Char} {c : Char} {n : Nat}
    (seen : Alternation.Visits jinjaAlternation anywhere text before (c :: rest))
    (spoke : jinjaAlternation.accepted? anywhere before (c :: rest) = some n) {i : Nat}
    (past : before.length ≤ i) (inside : i < before.length + n) :
    struck .empty (jinjaAlternation.search anywhere text) i = true := by
  obtain ⟨earlier, later, split, told⟩ := Alternation.visitsHit seen spoke
  have size : (spelled earlier).length = before.length := by rw [told, List.length_reverse]
  have long := Alternation.takenLength jinjaInside spoke
  rw [split, struckHit _ _ _ _ _ (by omega) (by rw [long, size]; exact inside)]
  rfl

theorem visitEncloses {before rest : List Char} {n : Nat}
    (seen : Alternation.Visits jinjaAlternation anywhere text before rest)
    (spoke : jinjaAlternation.accepted? anywhere before rest = some n) :
    Encloses text before.length n := by
  rw [← enclosesIff, ← Alternation.visitsText seen, ← List.length_reverse, List.drop_left]
  exact jinjaRead.mp spoke

theorem enclosedStruck {position width : Nat} (encloses : Encloses text position width)
    (apart : text[position + 2]? ≠ some '}') {i : Nat} (past : position ≤ i)
    (inside : i < position + width) :
    struck .empty (jinjaAlternation.search anywhere text) i = true := by
  have within : position < text.length := (List.getElem?_eq_some_iff.mp encloses.brace).1
  have place : (text.take position).reverse.length = position := by
    rw [List.length_reverse, List.length_take]
    omega
  have cut : text = (text.take position).reverse.reverse ++ text.drop position := by simp
  rcases Alternation.visitsOrCovers jinjaAlternation anywhere cut with
    seen | ⟨before, c, rest, n, seen, spoke, earlier, covers⟩
  · have spoke : jinjaAlternation.accepted? anywhere (text.take position).reverse
        (text.drop position) = some width := jinjaRead.mpr (enclosesIff.mpr encloses)
    obtain ⟨c, rest, here⟩ : ∃ c rest, text.drop position = c :: rest :=
      List.exists_cons_of_ne_nil (by simpa using within)
    rw [here] at seen spoke
    exact visitStruck seen spoke (by omega) (by omega)
  · rw [place] at earlier covers
    have together := enclosesTogether (visitEncloses seen spoke) encloses earlier covers apart
    exact visitStruck seen spoke (by omega) (by omega)

end

theorem blankedStands {text out : List Char} (blanked : Blanked text out) {raw : List Char}
    (solid : ∀ c ∈ raw, c ≠ ' ') {position : Nat} (stands : Stands out position raw) :
    Stands text position raw := by
  refine standsIff.mpr fun i c here => ?_
  have left := standsIff.mp stands i c here
  have within : position + i < text.length := by
    rw [← blanked.length]
    exact (List.getElem?_eq_some_iff.mp left).1
  rcases blanked.at? (List.getElem?_eq_getElem within) with same | ⟨space, -⟩
  · rw [List.getElem?_eq_getElem within, ← same, left]
  · rw [left, Option.some.injEq] at space
    exact absurd space (solid c (List.mem_of_getElem? here))

theorem enclosesLeft {text out : List Char} (blanked : Blanked text out) {position width : Nat}
    (encloses : Encloses text position width) (opens : Stands out position ['{', '#'])
    (closes : Stands out (position + width - 2) ['#', '}']) : Encloses out position width :=
  ⟨encloses.long, opens, closes, fun e past ends =>
    encloses.first e past (blankedStands blanked (by simp) ends)⟩

theorem blankStands (keep : KeepSet) {text first raw : List Char} (blanked : Blanked text first)
    {position : Nat} (stands : Stands text position raw) :
    Stands (jinjaPass keep first).text position (blank raw) ↔
      ∀ i c, i < raw.length → first[position + i]? = some c → c = ' ' ∨ isBreak c = true ∨
        struck keep (jinjaAlternation.search anywhere first) (position + i) = true := by
  rw [standsIff]
  have each {i : Nat} {c d : Char} (here : raw[i]? = some c) (left : first[position + i]? = some d) :
      (jinjaPass keep first).text[position + i]? = some (if isBreak c then c else ' ') ↔
        d = ' ' ∨ isBreak d = true ∨
          struck keep (jinjaAlternation.search anywhere first) (position + i) = true := by
    rw [jinjaPassLeaves left]
    have source := standsIff.mp stands i c here
    rcases blanked.at? source with same | ⟨space, inLine⟩
    · obtain rfl := Option.some.inj (same.symm.trans left)
      cases struck keep (jinjaAlternation.search anywhere first) (position + i) <;>
        cases isBreak c <;> simp
    · obtain rfl := Option.some.inj (space.symm.trans left)
      simp [inLine]
  constructor
  · intro gone i d inside left
    have here := List.getElem?_eq_getElem inside
    exact (each here left).mp (gone i _ (blankAt here))
  · intro struckAll i b shown
    have inside : i < raw.length := by
      rw [← blankLength]
      exact (List.getElem?_eq_some_iff.mp shown).1
    have here := List.getElem?_eq_getElem inside
    rw [blankAt here] at shown
    obtain rfl := Option.some.inj shown
    have within := (List.getElem?_eq_some_iff.mp (standsIff.mp stands i _ here)).1
    rw [← blanked.length] at within
    have left := List.getElem?_eq_getElem within
    exact (each here left).mpr (struckAll i _ inside left)

theorem hitEncloses {text raw : List Char} {n : Nat} {front back : List (Piece Nat)}
    (found : jinjaAlternation.search anywhere text = front ++ .hit n raw :: back) :
    Stands text (spelled front).length raw ∧ Encloses text (spelled front).length raw.length := by
  have whole : text = spelled front ++ raw ++ spelled back := by
    rw [← Alternation.spelledSearch jinjaAlternation anywhere text, found]
    simp [spelled, Piece.text]
  have member : .hit n raw ∈ jinjaAlternation.searchFrom anywhere [] [] text := by
    show _ ∈ jinjaAlternation.search anywhere text
    simp [found]
  have long : n = raw.length := Alternation.hitWidth jinjaInside member
  obtain ⟨rest, matched⟩ := Alternation.hitsRead member
  rw [jinjaMatch, long] at matched
  constructor
  · rw [whole]
    exact standsBetween _ _ _
  · rw [← enclosesIff, whole, List.append_assoc, List.drop_left]
    exact enclosedAgain matched _

/- A comment in braces with a hash is blank in the end exactly when the second pass strikes what the
first one left to see of it, and so it does when both its delimiters were left. -/
theorem templateCommentBlank {text raw : List Char} {n : Nat} {front back : List (Piece Nat)}
    (found : jinjaAlternation.search anywhere text = front ++ .hit n raw :: back)
    (delegate : Php.Delegate) :
    let first := (scan .html .empty delegate text).text
    let out := (scan .jinja .empty delegate text).text
    let position := (spelled front).length
    (Stands out position (blank raw) ↔
      ∀ i c, i < raw.length → first[position + i]? = some c → c = ' ' ∨ isBreak c = true ∨
        struck .empty (jinjaAlternation.search anywhere first) (position + i) = true) ∧
    (Stands first position ['{', '#'] → Stands first (position + raw.length - 2) ['#', '}'] →
      raw[2]? ≠ some '}' → Stands out position (blank raw)) := by
  obtain ⟨stands, encloses⟩ := hitEncloses found
  have blanked : Blanked text (scan .html .empty delegate text).text := by
    rw [scanUnasked (by decide)]
    exact (scanBlanks .empty Php.noDelegateFails .html text).blanked
  have second : (scan .jinja .empty delegate text).text =
      (jinjaPass .empty (scan .html .empty delegate text).text).text := rfl
  have exactly := blankStands .empty blanked stands
  rw [← second] at exactly
  refine ⟨exactly, fun opens closes apart => exactly.mpr ?_⟩
  intro i c inside left
  refine .inr (.inr (enclosedStruck (enclosesLeft blanked encloses opens closes) ?_ (by omega)
    (by omega)))
  intro brace
  have long := encloses.long
  have there : raw[2]? = some raw[2] := List.getElem?_eq_getElem (by omega)
  rw [there] at apart
  rcases blanked.at? (standsIff.mp stands 2 _ there) with same | ⟨space, -⟩
  · exact apart (same.symm.trans brace)
  · cases space.symm.trans brace

theorem templateCommentBlankInner :
    (scan .html .empty Php.noDelegate "\x7b#a<!--b\n-->#\x7d c".toList).text =
        "\x7b#a     \n   #\x7d c".toList ∧
      (scan .jinja .empty Php.noDelegate "\x7b#a<!--b\n-->#\x7d c".toList).text =
        "        \n      c".toList ∧
      Stands (scan .jinja .empty Php.noDelegate "\x7b#a<!--b\n-->#\x7d c".toList).text 0
        (blank "\x7b#a<!--b\n-->#\x7d".toList) := by
  have found : jinjaAlternation.search anywhere "\x7b#a<!--b\n-->#\x7d c".toList =
      [] ++ .hit 14 "\x7b#a<!--b\n-->#\x7d".toList :: [.gap " c".toList] := by decide +kernel
  have first : (scan .html .empty Php.noDelegate "\x7b#a<!--b\n-->#\x7d c".toList).text =
      "\x7b#a     \n   #\x7d c".toList := by decide +kernel
  refine ⟨first, by decide +kernel,
    (templateCommentBlank found Php.noDelegate).2 ?_ ?_ (by decide)⟩ <;> rw [first, Stands] <;> decide

/- The script in front of the closing delimiter makes it a comment of its own, and the opening one
is left alone. -/
theorem templateCommentOpen :
    jinjaAlternation.search anywhere "\x7b#<script>//#\x7d</script>".toList =
        [.hit 14 "\x7b#<script>//#\x7d".toList, .gap "</script>".toList] ∧
      (scan .jinja .empty Php.noDelegate "\x7b#<script>//#\x7d</script>".toList).text =
        "\x7b#<script>    </script>".toList ∧
      ¬ Stands (scan .jinja .empty Php.noDelegate "\x7b#<script>//#\x7d</script>".toList).text 0
        (blank "\x7b#<script>//#\x7d".toList) := by
  have left : (scan .jinja .empty Php.noDelegate "\x7b#<script>//#\x7d</script>".toList).text =
      "\x7b#<script>    </script>".toList := by decide +kernel
  refine ⟨by decide +kernel, left, ?_⟩
  rw [left, Stands]
  decide

end CommentStrip.Markup
