import CommentStrip.Proofs.CStyle.Removed
import CommentStrip.Proofs.Markup.Region

/-! What the template scanner leaves of a text is a blanked copy of it, and shows whether a comment
was removed. This goes through the bodies of blocks and, for Jinja, through both passes. -/
namespace CommentStrip

def Php.Fails (delegate : Php.Delegate) : Prop :=
  ∀ text keep, ∃ e, delegate text keep = .error e

theorem Php.noDelegateFails : Php.Fails Php.noDelegate := fun _ _ => ⟨_, rfl⟩

namespace Markup
open Unicode Text

structure Blanks (text : List Char) (scanned : Scanned) : Prop where
  blanked : Blanked text scanned.text
  removal : Removal text scanned.text scanned.tally.removed

namespace Blanks

theorem copy (text : List Char) : Blanks text (.copy text) := ⟨.refl text, .kept text⟩

theorem append {a b : List Char} {s t : Scanned} (front : Blanks a s) (back : Blanks b t) :
    Blanks (a ++ b) (s.append t) :=
  ⟨front.blanked.append back.blanked, front.removal.append back.removal⟩

theorem join {μ : Type} {found : List (Piece μ)} {scanned : Piece μ → Scanned}
    (each : ∀ piece ∈ found, Blanks piece.text (scanned piece)) :
    Blanks (found.flatMap Piece.text) (.join (found.map scanned)) := by
  induction found with
  | nil => exact copy []
  | cons piece later ih =>
    obtain ⟨here, behind⟩ := List.forall_mem_cons.mp each
    exact here.append (ih behind)

theorem next {text : List Char} {first second : Scanned} (one : Blanks text first)
    (two : Blanks first.text second) (requests : List (List Char)) :
    Blanks text ⟨second.text, first.tally.merge second.tally, requests⟩ := by
  refine ⟨one.blanked.trans two.blanked, ?_, ?_⟩
  · exact Nat.le_trans two.removal.shorter one.removal.shorter
  · show second.text = text ↔ first.tally.removed + second.tally.removed = 0
    rw [Nat.add_eq_zero_iff, ← one.removal.same, ← two.removal.same]
    constructor
    · intro same
      -- The text came back through blanks only, so it was never left.
      have back := two.blanked
      rw [same] at back
      have still := one.blanked.antisymm back
      exact ⟨still, same.trans still.symm⟩
    · intro both
      exact both.2.trans both.1

end Blanks

theorem signVisible {c : Char} {taken rest here : List Char} (begins : taken ++ rest = c :: here)
    (filled : taken ≠ []) (sign : isSign c) : Visible taken := by
  cases taken with
  | nil => exact absurd rfl filled
  | cons d taken =>
    obtain ⟨rfl, -⟩ := List.cons.inj begins
    refine ⟨d, taken, rfl, ?_, ?_⟩ <;> rcases sign with rfl | rfl | rfl <;> decide

theorem commentKept {keep : KeepSet} {raw : List Char} (holds : keep.holds raw = true) :
    scanComment keep raw = ⟨raw, Tally.zero.record true, []⟩ := by
  simp [scanComment, holds]

theorem commentGone {keep : KeepSet} {raw : List Char} (goes : keep.holds raw = false) :
    scanComment keep raw = ⟨blank raw, Tally.zero.record false, []⟩ := by
  simp [scanComment, goes]

theorem commentBlanked (keep : KeepSet) (raw : List Char) :
    Blanked raw (scanComment keep raw).text := by
  cases holds : keep.holds raw with
  | true =>
    rw [commentKept holds]
    exact .refl raw
  | false =>
    rw [commentGone holds]
    exact .whole raw

theorem commentBlanks (keep : KeepSet) {raw : List Char} (visible : Visible raw) :
    Blanks raw (scanComment keep raw) := by
  refine ⟨commentBlanked keep raw, ?_⟩
  cases holds : keep.holds raw with
  | true =>
    rw [commentKept holds]
    exact .kept raw
  | false =>
    rw [commentGone holds]
    exact blankRemoval visible

theorem jinjaBlanks (keep : KeepSet) (text : List Char) : Blanks text (jinjaPass keep text) := by
  have whole : (jinjaAlternation.search (fun _ _ _ => true) text).flatMap Piece.text = text :=
    Alternation.searchText _ _ _
  have each : Blanks _ (jinjaPass keep text) := Blanks.join fun piece
      (member : piece ∈ jinjaAlternation.search (fun _ _ _ => true) text) => by
    cases piece with
    | gap gap => exact .copy gap
    | hit width taken =>
      obtain ⟨rest, matched⟩ := Alternation.hitsRead member
      obtain ⟨branch, known, spoke⟩ := List.exists_of_findSome?_eq_some matched
      obtain rfl := List.mem_singleton.mp known
      obtain ⟨here, begins⟩ := enclosedHead spoke
      exact commentBlanks keep
        (signVisible begins (Alternation.piecesFilled _ member) (.inr (.inr rfl)))
  rwa [whole] at each

theorem blockCut (opening body : Nat) (taken : List Char) :
    taken.take opening ++ ((taken.drop opening).take body ++ taken.drop (opening + body)) =
      taken := by
  rw [← List.drop_drop, List.take_append_drop, List.take_append_drop]

def BlockKind.rules : BlockKind → Option CStyle.Options
  | .script => some (.script false)
  | .style => some (.stylesheet false)
  | .verbatim => none
  | .php => some .php

theorem rulesPlain {kind : BlockKind} {o : CStyle.Options} (rules : kind.rules = some o) :
    o.jsx = false := by
  cases kind <;> cases rules <;> rfl

theorem bodyCopied {kind : BlockKind} (rules : kind.rules = none) (keep : KeepSet)
    (delegate : Php.Delegate) (body : List Char) : scanBody keep delegate kind body = .copy body := by
  cases kind with
  | verbatim => rfl
  | script | style | php => cases rules

theorem bodyScanned {kind : BlockKind} {o : CStyle.Options} (rules : kind.rules = some o)
    (keep : KeepSet) {delegate : Php.Delegate} (fails : Php.Fails delegate) (body : List Char) :
    ∃ requests, scanBody keep delegate kind body =
      ⟨(CStyle.scan o keep body).1, (CStyle.scan o keep body).2, requests⟩ := by
  cases kind with
  | script | style =>
    cases rules
    exact ⟨[], rfl⟩
  | verbatim => cases rules
  | php =>
    cases rules
    obtain ⟨e, fault⟩ := fails (openTagText ++ body) keep.sources
    refine ⟨[openTagText ++ body], ?_⟩
    simp only [scanBody, scanPhp, fault]

section
variable (keep : KeepSet) {delegate : Php.Delegate} (fails : Php.Fails delegate)
include fails

theorem bodyBlanks (kind : BlockKind) (body : List Char) :
    Blanks body (scanBody keep delegate kind body) := by
  cases rules : kind.rules with
  | none =>
    rw [bodyCopied rules]
    exact .copy body
  | some o =>
    obtain ⟨requests, scanned⟩ := bodyScanned rules keep fails body
    rw [scanned]
    exact ⟨CStyle.scanBlanked (rulesPlain rules) keep body, CStyle.scanRemoval o keep body⟩

theorem hitBlanks {variant : MarkupVariant} {region : Region} {taken rest : List Char}
    (found : (alternation variant).matchAt (taken ++ rest) = some region) (filled : taken ≠ []) :
    Blanks taken (scanPiece keep delegate (.hit region taken)) := by
  cases region with
  | comment kind extent =>
    obtain ⟨c, here, begins, sign⟩ := matchHead found
    exact commentBlanks keep (signVisible begins filled sign)
  | block kind opening body closing =>
    have parts := (Blanks.copy (taken.take opening)).append
      ((bodyBlanks keep fails kind ((taken.drop opening).take body)).append
        (.copy (taken.drop (opening + body))))
    rwa [blockCut] at parts

theorem scanBlanks (variant : MarkupVariant) (text : List Char) :
    Blanks text (scan variant keep delegate text) := by
  have first : Blanks text (.join ((pieces variant text).map (scanPiece keep delegate))) := by
    have whole : (pieces variant text).flatMap Piece.text = text := Alternation.searchText _ _ _
    have each : Blanks _ (.join ((pieces variant text).map (scanPiece keep delegate))) :=
        Blanks.join fun piece (member : piece ∈ pieces variant text) => by
      cases piece with
      | gap gap => exact .copy gap
      | hit region taken =>
        obtain ⟨rest, matched⟩ := Alternation.hitsRead member
        exact hitBlanks keep fails matched (Alternation.piecesFilled _ member)
    rwa [whole] at each
  cases variant with
  | html | blade => exact first
  | jinja => exact first.next (jinjaBlanks keep _) _

end
end Markup
end CommentStrip
