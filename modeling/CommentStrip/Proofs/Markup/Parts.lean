import CommentStrip.Proofs.CStyle.Changed
import CommentStrip.Proofs.CStyle.Parts
import CommentStrip.Proofs.Markup.Removed

/-! The comments of a template: those of the markup, and those in the bodies of its blocks by the
rules of the body. -/
namespace CommentStrip

namespace CStyle
open Text

theorem partsBlanked {o : Options} (plain : o.jsx = false) (keep : KeepSet) (text : List Char) :
    ∀ part ∈ parts o text, Blanked part.text (part.left keep) := by
  intro part member
  obtain ⟨piece, found, rfl⟩ := List.mem_map.mp member
  have blanked := classifyBlanked plain keep text (classified keep piece)
    (List.mem_map.mpr ⟨piece, found, rfl⟩)
  rwa [classifiedText, (partLeft keep piece).1, ← partText] at blanked

end CStyle

namespace Markup
open Text

def bodyParts (kind : BlockKind) (body : List Char) : List Part :=
  match kind.rules with
  | some o => CStyle.parts o body
  | none => [.plain body]

def pieceParts : Piece Region → List Part
  | .gap text => [.plain text]
  | .hit (.comment _ _) raw => [.comment ⟨[], raw, raw, blank raw, false⟩]
  | .hit (.block kind opening body _) text =>
    [.plain (text.take opening)] ++ (bodyParts kind ((text.drop opening).take body) ++
      [.plain (text.drop (opening + body))])

def parts (variant : MarkupVariant) (text : List Char) : List Part :=
  (pieces variant text).flatMap pieceParts

section
variable (keep : KeepSet)

theorem bodyParted {delegate : Php.Delegate} (fails : Php.Fails delegate) (kind : BlockKind)
    (body : List Char) :
    Parted keep (bodyParts kind body) body (scanBody keep delegate kind body).text
      (scanBody keep delegate kind body).tally := by
  rw [bodyParts]
  cases rules : kind.rules with
  | none =>
    rw [bodyCopied rules]
    exact .plain body
  | some o =>
    obtain ⟨requests, scanned⟩ := bodyScanned rules keep fails body
    rw [scanned]
    exact CStyle.scanParted o keep body

theorem pieceParted {delegate : Php.Delegate} (fails : Php.Fails delegate) (piece : Piece Region) :
    Parted keep (pieceParts piece) piece.text (scanPiece keep delegate piece).text
      (scanPiece keep delegate piece).tally := by
  cases piece with
  | gap text => exact .plain text
  | hit region text =>
    cases region with
    | comment kind extent => exact .comment ⟨[], text, text, blank text, false⟩
    | block kind opening body closing =>
      have parted := (Parted.plain (text.take opening)).append
        ((bodyParted keep fails kind ((text.drop opening).take body)).append
          (.plain (text.drop (opening + body))))
      rwa [blockCut] at parted

theorem joinParted {delegate : Php.Delegate} (fails : Php.Fails delegate)
    (found : List (Piece Region)) :
    Parted keep (found.flatMap pieceParts) (found.flatMap Piece.text)
      (Scanned.join (found.map (scanPiece keep delegate))).text
      (Scanned.join (found.map (scanPiece keep delegate))).tally := by
  induction found with
  | nil => exact .nil
  | cons piece rest ih => exact (pieceParted keep fails piece).append ih

theorem spelledParts (found : List (Piece Region)) :
    (found.flatMap pieceParts).flatMap Part.text = spelled found :=
  (joinParted .empty Php.noDelegateFails found).whole

theorem partsWhole (variant : MarkupVariant) (text : List Char) :
    (parts variant text).flatMap Part.text = text :=
  (spelledParts (pieces variant text)).trans (Alternation.searchText _ _ _)

theorem scanParted {delegate : Php.Delegate} (fails : Php.Fails delegate)
    {variant : MarkupVariant} (single : variant ≠ .jinja) (text : List Char) :
    Parted keep (parts variant text) text (scan variant keep delegate text).text
      (scan variant keep delegate text).tally := by
  have whole : (pieces variant text).flatMap Piece.text = text := Alternation.searchText _ _ _
  have parted := joinParted keep fails (pieces variant text)
  rw [whole] at parted
  cases variant with
  | jinja => exact absurd rfl single
  | html | blade => exact parted

theorem bodyPartsBlanked (kind : BlockKind) (body : List Char) :
    ∀ part ∈ bodyParts kind body, Blanked part.text (part.left keep) := by
  rw [bodyParts]
  cases rules : kind.rules with
  | none => exact List.forall_mem_singleton.mpr (.refl body)
  | some o => exact CStyle.partsBlanked (rulesPlain rules) keep body

theorem partsBlanked (variant : MarkupVariant) (text : List Char) :
    ∀ part ∈ parts variant text, Blanked part.text (part.left keep) := by
  intro part member
  obtain ⟨piece, -, inside⟩ := List.mem_flatMap.mp member
  cases piece with
  | gap text =>
    obtain rfl := List.mem_singleton.mp inside
    exact .refl text
  | hit region text =>
    cases region with
    | comment kind extent =>
      obtain rfl := List.mem_singleton.mp inside
      simp only [Part.left]
      split
      · exact .refl text
      · exact .whole text
    | block kind opening body closing =>
      rcases List.mem_append.mp inside with opens | later
      · obtain rfl := List.mem_singleton.mp opens
        exact .refl _
      · rcases List.mem_append.mp later with scanned | closes
        · exact bodyPartsBlanked keep kind _ part scanned
        · obtain rfl := List.mem_singleton.mp closes
          exact .refl _

theorem partsLength (variant : MarkupVariant) {text : List Char} {front rest : List Part}
    (found : parts variant text = front ++ rest) :
    (front.flatMap (Part.left keep)).length = (front.flatMap Part.text).length := by
  have even : ∀ part ∈ front, (part.left keep).length = part.text.length := by
    intro part member
    have known : part ∈ parts variant text := by
      rw [found]
      exact List.mem_append_left rest member
    exact (partsBlanked keep variant text part known).length
  simp only [List.length_flatMap]
  rw [List.map_congr_left even]

end
end Markup
end CommentStrip
