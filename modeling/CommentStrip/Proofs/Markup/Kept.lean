import CommentStrip.Proofs.Pattern.AllOrNothing
import CommentStrip.Proofs.Markup.Jinja
import CommentStrip.Proofs.Markup.Parts

/-! The comments that a template keeps, and where they stand afterwards. The second pass over a
Jinja template reads what the first one left, kept comments included. -/
namespace CommentStrip.Markup
open Text

inductive Kept (variant : MarkupVariant) (keep : KeepSet) (text : List Char) :
    (ahead raw : List Char) → Prop where
  | comment {front back kind extent raw}
      (found : pieces variant text = front ++ .hit (.comment kind extent) raw :: back)
      (holds : keep.holds raw = true) : Kept variant keep text (spelled front) raw
  | inner {front back kind opening body closing block o before behind c}
      (found : pieces variant text =
        front ++ .hit (.block kind opening body closing) block :: back)
      (rules : kind.rules = some o)
      (spans : CStyle.classify o keep ((block.drop opening).take body) = before ++ c :: behind)
      (code : c.kind = .code) (branch : c.branch ≠ none) :
      Kept variant keep text
        (spelled front ++ block.take opening ++ (before.map CStyle.Classified.text).flatten) c.text

def Stands (text : List Char) (position : Nat) (raw : List Char) : Prop :=
  (text.drop position).take raw.length = raw

def strikes (keep : KeepSet) : Piece Nat → Bool
  | .gap _ => false
  | .hit _ raw => !keep.holds raw

def struck (keep : KeepSet) : List (Piece Nat) → Nat → Bool
  | [], _ => false
  | piece :: rest, i =>
    if i < piece.text.length then strikes keep piece else struck keep rest (i - piece.text.length)

theorem standsBetween (ahead raw behind : List Char) :
    Stands (ahead ++ raw ++ behind) ahead.length raw := by
  simp [Stands]

theorem standsIff {text raw : List Char} {position : Nat} :
    Stands text position raw ↔ ∀ i c, raw[i]? = some c → text[position + i]? = some c := by
  constructor
  · intro stands i c here
    obtain ⟨inside, -⟩ := List.getElem?_eq_some_iff.mp here
    rw [← stands, List.getElem?_take_of_lt inside, List.getElem?_drop] at here
    exact here
  · intro each
    refine List.ext_getElem? fun i => ?_
    cases here : raw[i]? with
    | none =>
      have past := List.getElem?_eq_none_iff.mp here
      exact List.getElem?_eq_none_iff.mpr (by simp; omega)
    | some c =>
      obtain ⟨inside, -⟩ := List.getElem?_eq_some_iff.mp here
      rw [List.getElem?_take_of_lt inside, List.getElem?_drop]
      exact each i c here

section
variable {keep : KeepSet}

theorem keptPart {variant : MarkupVariant} {text ahead raw : List Char}
    (kept : Kept variant keep text ahead raw) :
    ∃ front c back, parts variant text = front ++ .comment c :: back ∧ c.stays keep = true ∧
      front.flatMap Part.text = ahead ∧ c.text = raw := by
  cases kept with
  | @comment front back kind extent raw found holds =>
    refine ⟨front.flatMap pieceParts, ⟨[], raw, raw, blank raw, false⟩, back.flatMap pieceParts,
      ?_, holds, spelledParts front, rfl⟩
    rw [parts, found, List.flatMap_append]
    rfl
  | @inner front back kind opening body closing block o before behind c found rules spans code branch =>
    obtain ⟨earlier, d, later, split, stays, told, same⟩ := CStyle.spanPart spans code branch
    refine ⟨front.flatMap pieceParts ++ .plain (block.take opening) :: earlier, d,
      later ++ .plain (block.drop (opening + body)) :: back.flatMap pieceParts, ?_, stays, ?_, same⟩
    · have inside : bodyParts kind ((block.drop opening).take body) =
          earlier ++ .comment d :: later := by simp only [bodyParts, rules, split]
      rw [parts, found, List.flatMap_append, List.flatMap_cons, pieceParts, inside]
      simp
    · rw [List.flatMap_append, List.flatMap_cons, spelledParts, told]
      simp [Part.text]

theorem blankAt {raw : List Char} {i : Nat} {c : Char} (here : raw[i]? = some c) :
    (blank raw)[i]? = some (if isBreak c then c else ' ') := by
  rw [blank, List.getElem?_map, here]
  rfl

theorem pieceAt (piece : Piece Nat) {i : Nat} {c : Char} (here : piece.text[i]? = some c) :
    (replaced (jinjaRemainder keep) [piece])[i]? =
      some (if strikes keep piece && !isBreak c then ' ' else c) := by
  cases piece with
  | gap text => simpa [replaced, strikes, Piece.text] using here
  | hit width raw =>
    rw [Piece.text] at here
    rw [replaced, List.flatMap_singleton, strikes]
    simp only [jinjaRemainder]
    cases holds : keep.holds raw with
    | true => simpa [commentKept holds] using here
    | false =>
      simp only [commentGone holds]
      rw [blankAt here]
      cases isBreak c <;> rfl

theorem pieceLength (keep : KeepSet) (piece : Piece Nat) :
    (replaced (jinjaRemainder keep) [piece]).length = piece.text.length := by
  rw [replaced, List.flatMap_singleton]
  cases piece with
  | gap text => rfl
  | hit width raw => exact (commentBlanked keep raw).length

theorem struckAt (found : List (Piece Nat)) {i : Nat} {c : Char}
    (here : (spelled found)[i]? = some c) :
    (replaced (jinjaRemainder keep) found)[i]? =
      some (if struck keep found i && !isBreak c then ' ' else c) := by
  induction found generalizing i with
  | nil => cases here
  | cons piece rest ih =>
    have whole : spelled (piece :: rest) = piece.text ++ spelled rest := rfl
    have left : replaced (jinjaRemainder keep) (piece :: rest) =
        replaced (jinjaRemainder keep) [piece] ++ replaced (jinjaRemainder keep) rest := by
      simp [replaced]
    rw [whole] at here
    rw [left, struck]
    have even := pieceLength keep piece
    split
    · rename_i inside
      rw [List.getElem?_append_left inside] at here
      rw [List.getElem?_append_left (by omega), pieceAt piece here]
    · rename_i past
      rw [List.getElem?_append_right (by omega)] at here
      rw [List.getElem?_append_right (by omega), even, ih here]

theorem jinjaPassLeaves {text : List Char} {i : Nat} {c : Char} (here : text[i]? = some c) :
    (jinjaPass keep text).text[i]? =
      some (if struck keep (jinjaAlternation.search anywhere text) i && !isBreak c then ' ' else c) := by
  rw [jinjaReplaced, struckAt _ (by rwa [Alternation.spelledSearch])]

theorem jinjaPassAt {text : List Char} {i : Nat} {c : Char} (here : text[i]? = some c) :
    (jinjaPass keep text).text[i]? = some c ↔
      (struck keep (jinjaAlternation.search anywhere text) i = true → c = ' ' ∨ isBreak c = true) := by
  rw [jinjaPassLeaves here]
  cases struck keep (jinjaAlternation.search anywhere text) i <;> cases isBreak c <;>
    simp [eq_comm]

end

theorem keptStandsOnce (keep : KeepSet) {delegate : Php.Delegate} (fails : Php.Fails delegate)
    {variant : MarkupVariant} (single : variant ≠ .jinja) {text : List Char} {front back : List Part}
    {c : Comment} (found : parts variant text = front ++ .comment c :: back)
    (stays : c.stays keep = true) :
    Stands (scan variant keep delegate text).text (front.flatMap Part.text).length c.text := by
  rw [(scanParted keep fails single text).kept found stays, ← partsLength keep variant found]
  exact standsBetween _ _ _

/- A comment that is kept stands at its place, unless a second pass strikes it there. -/
theorem keptStands (keep : KeepSet) {delegate : Php.Delegate} (fails : Php.Fails delegate)
    {variant : MarkupVariant} {text ahead raw : List Char} (kept : Kept variant keep text ahead raw) :
    Stands text ahead.length raw ∧
      (Stands (scan variant keep delegate text).text ahead.length raw ↔
        (variant = .jinja → ∀ i c, raw[i]? = some c →
          struck keep (jinjaAlternation.search anywhere (scan .html keep delegate text).text)
            (ahead.length + i) = true → c = ' ' ∨ isBreak c = true)) := by
  obtain ⟨front, c, back, found, stays, rfl, rfl⟩ := keptPart kept
  constructor
  · have whole : text = front.flatMap Part.text ++ c.text ++ back.flatMap Part.text :=
      (partsWhole variant text).symm.trans (by rw [found]; simp [Part.text])
    rw [whole]
    exact standsBetween _ _ _
  by_cases single : variant = .jinja
  · subst single
    -- The first pass is that over plain markup, and the comment stands in what it left.
    have once : Stands (scan .html keep delegate text).text (front.flatMap Part.text).length c.text :=
      keptStandsOnce keep fails (by simp) found stays
    have second : (scan .jinja keep delegate text).text =
        (jinjaPass keep (scan .html keep delegate text).text).text := rfl
    rw [second, standsIff]
    constructor
    · intro stands _ i ch here
      exact (jinjaPassAt (standsIff.mp once i ch here)).mp (stands i ch here)
    · intro spared i ch here
      exact (jinjaPassAt (standsIff.mp once i ch here)).mpr (spared rfl i ch here)
  · have stands := keptStandsOnce keep fails single found stays
    exact ⟨fun _ same => absurd same single, fun _ => stands⟩

theorem keptStandsInner :
    Php.Fails Php.noDelegate ∧
      Kept .jinja (.signs ['!']) "<script>//!\n</script>{#a#}".toList "<script>".toList
        "//!".toList ∧
      Stands "<script>//!\n</script>{#a#}".toList 8 "//!".toList ∧
      (scan .jinja (.signs ['!']) Php.noDelegate "<script>//!\n</script>{#a#}".toList).text =
        "<script>//!\n</script>     ".toList ∧
      Stands (scan .jinja (.signs ['!']) Php.noDelegate
        "<script>//!\n</script>{#a#}".toList).text 8 "//!".toList := by
  have kept : Kept .jinja (.signs ['!']) "<script>//!\n</script>{#a#}".toList "<script>".toList
      "//!".toList := by
    have found : pieces .jinja "<script>//!\n</script>{#a#}".toList =
        [] ++ .hit (.block .script 8 4 9) "<script>//!\n</script>".toList ::
          [.gap "{#a#}".toList] := by decide +kernel
    have spans : CStyle.classify (.script false) (.signs ['!'])
        (("<script>//!\n</script>".toList.drop 8).take 4) =
          [] ++ ⟨"//!".toList, .code, some .lineComment⟩ :: [⟨['\n'], .code, none⟩] := by
      decide +kernel
    exact .inner found rfl spans rfl (by decide)
  have first : (scan .html (.signs ['!']) Php.noDelegate "<script>//!\n</script>{#a#}".toList).text =
      "<script>//!\n</script>{#a#}".toList := by decide +kernel
  have spared : ∀ i, i < "//!".toList.length → struck (.signs ['!'])
      (jinjaAlternation.search anywhere "<script>//!\n</script>{#a#}".toList)
        ("<script>".toList.length + i) = false := by
    decide +kernel
  obtain ⟨here, stands⟩ := keptStands (.signs ['!']) Php.noDelegateFails kept
  refine ⟨Php.noDelegateFails, kept, here, by decide +kernel, stands.mpr ?_⟩
  intro _ i c inside goes
  obtain ⟨short, -⟩ := List.getElem?_eq_some_iff.mp inside
  rw [first, spared i short] at goes
  cases goes

/- The second pass takes the inside of a kept comment for a comment of its own. -/
theorem keptCommentStruck :
    KeepSet.compile ["!"] = .ok (.signs ['!']) ∧ Php.Fails Php.noDelegate ∧
      Kept .jinja (.signs ['!']) "<!--!{#a#}-->".toList [] "<!--!{#a#}-->".toList ∧
      (scan .jinja (.signs ['!']) Php.noDelegate "<!--!{#a#}-->".toList).text =
        "<!--!     -->".toList ∧
      ¬ Stands (scan .jinja (.signs ['!']) Php.noDelegate "<!--!{#a#}-->".toList).text 0
        "<!--!{#a#}-->".toList := by
  have left : (scan .jinja (.signs ['!']) Php.noDelegate "<!--!{#a#}-->".toList).text =
      "<!--!     -->".toList := by decide +kernel
  have sign : Pattern.read "!".toList = .ok (.seq (.char (.single '!')) .empty) := by
    decide +kernel
  have compiled : KeepSet.compile ["!"] = .ok (.signs ['!']) :=
    KeepSet.compileReads.mpr (.cons ⟨rfl, by decide, Pattern.spokenRead sign⟩ .nil)
  refine ⟨compiled, Php.noDelegateFails, ?_, left, ?_⟩
  · have found : pieces .jinja "<!--!{#a#}-->".toList =
        [] ++ .hit (.comment .html 13) "<!--!{#a#}-->".toList :: [] := by decide +kernel
    exact .comment found (by decide +kernel)
  · rw [left, Stands]
    decide

end CommentStrip.Markup
