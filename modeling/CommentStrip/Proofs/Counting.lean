import CommentStrip.Proofs.Markup.Removed
import CommentStrip.Proofs.Python.LineAgain
import CommentStrip.Proofs.Python.StripAgain
import CommentStrip.Proofs.Session

/-! What is counted. Counting gives the tally of stripping and asks no delegate, whatever delegates
answer and remember; and the number of removed comments is zero exactly when the text stays. -/
namespace CommentStrip
open Text

namespace Markup
variable {σ : Type}

theorem appendText (a b : Scanned) : (a.append b).text = a.text ++ b.text := rfl

theorem appendTally (a b : Scanned) : (a.append b).tally = a.tally.merge b.tally := rfl

theorem bodyTally (keep : KeepSet) (delegate other : Php.Delegate) (kind : BlockKind)
    (body : List Char) :
    (scanBody keep delegate kind body).tally = (scanBody keep other kind body).tally := by
  cases kind <;> rfl

theorem scanPieceTally (keep : KeepSet) (delegate other : Php.Delegate) (piece : Piece Region) :
    (scanPiece keep delegate piece).tally = (scanPiece keep other piece).tally := by
  cases piece with
  | gap text => rfl
  | hit region text =>
    cases region with
    | comment kind extent => rfl
    | block kind opening body closing =>
      simp only [scanPiece, appendTally, bodyTally keep delegate other]

theorem scanPiecesTally (keep : KeepSet) (ask : Php.Session σ) (found : List (Piece Region))
    (s : σ) :
    ((scanPiecesIn keep ask found).run s).1.tally =
      (Scanned.join (found.map (scanPiece keep Php.noDelegate))).tally := by
  induction found generalizing s with
  | nil => rfl
  | cons piece rest ih =>
    obtain ⟨delegate, answered⟩ := scanPieceAnswered keep ask piece s
    rw [scanPiecesStep, appendTally, ih, answered, scanPieceTally keep delegate Php.noDelegate]
    rfl

theorem scanPiecesUnasked (keep : KeepSet) (ask : Php.Session σ) {found : List (Piece Region)}
    (other : ∀ opening body closing text, .hit (.block .php opening body closing) text ∉ found) :
    scanPiecesIn keep ask found = pure (.join (found.map (scanPiece keep Php.noDelegate))) := by
  induction found with
  | nil => rfl
  | cons piece rest ih =>
    have here : scanPieceIn keep ask piece = pure (scanPiece keep Php.noDelegate piece) := by
      apply scanPieceInUnasked
      rintro opening body closing text rfl
      exact other opening body closing text List.mem_cons_self
    have later := ih fun opening body closing text member =>
      other opening body closing text (List.mem_cons_of_mem piece member)
    rw [scanPiecesIn, here, later]
    rfl

theorem scanTally (variant : MarkupVariant) (keep : KeepSet) (ask : Php.Session σ)
    (text : List Char) (s : σ) :
    ((scanIn variant keep ask text).run s).1.tally =
      (scan variant keep Php.noDelegate text).tally := by
  have last : ((scanIn variant keep ask text).run s).1 =
      lastPass keep variant ((scanPiecesIn keep ask (pieces variant text)).run s).1 := rfl
  rw [last, scanLast]
  cases variant with
  | html | blade => exact scanPiecesTally keep ask _ s
  | jinja =>
    -- The second pass counts in what the first one wrote, so that must not depend on answers.
    have unasked : scanPiecesIn keep ask (pieces .jinja text) = _ :=
      scanPiecesUnasked keep ask fun _ _ _ _ member => absurd (blockKnown member) (by decide)
    rw [unasked]
    rfl

end Markup

namespace Engine
variable {σ : Type}

theorem stripPhpTally (e : Engine) (text : List Char) :
    (e.stripPhp text).tally = e.analyze .php text := by
  cases answer : e.delegate text e.keep.sources <;>
  · simp only [stripPhp, answer]
    rfl

theorem stripTally (e : Engine) (ask : Php.Session σ) (family : Family) (text : List Char) (s : σ) :
    ((stripIn e.keep ask family text).run s).1.tally = e.analyze family text := by
  cases family with
  | python | script jsx | stylesheet lineComments => rfl
  | markup variant => exact Markup.scanTally variant e.keep ask text s
  | php => exact stripPhpTally ⟨e.keep, Php.answering ((ask text e.keep.sources).run s).1⟩ text

theorem analyzeUnasked (e : Engine) (ask : Php.Session σ) (family : Family) (text : List Char) :
    analyzeIn e.keep ask family text = pure (e.analyze family text) := by
  cases family with
  | python | script jsx | stylesheet lineComments | php => rfl
  | markup variant =>
    rw [analyzeIn, Markup.scanMemoryless]
    rfl

/- Counting is stripping as far as the tally goes, and leaves the delegate alone. This holds of the
engine's own delegates, and of every delegate with a memory. -/
theorem analyzeCounts (e : Engine) (family : Family) (text : List Char) (ask : Php.Session σ)
    (s : σ) :
    (e.strip family text).tally = e.analyze family text ∧
      ((stripIn e.keep ask family text).run s).1.tally = e.analyze family text ∧
      (analyzeIn e.keep ask family text).run s = (e.analyze family text, s) ∧
      (stripIn e.keep (Php.memoryless e.delegate) family text).run s =
        (e.strip family text, s) := by
  have memoryless := stripMemoryless (σ := σ) e family text
  have tally := stripTally e (Php.memoryless e.delegate) family text s
  rw [memoryless] at tally ⊢
  exact ⟨tally, stripTally e ask family text s, by rw [analyzeUnasked]; rfl, rfl⟩

theorem stripRemoval (e : Engine) (fails : Php.Fails e.delegate) (family : Family)
    (text : List Char) :
    Removal text (e.strip family text).text (e.strip family text).tally.removed := by
  cases family with
  | python =>
    show Removal text (stripPython e.keep text).text (stripPython e.keep text).tally.removed
    cases accepted : Python.strip e.keep text with
    | ok result =>
      obtain ⟨stripped, tally⟩ := result
      simp only [stripPython, accepted]
      exact Python.stripRemoval accepted
    | error fault =>
      simp only [stripPython, accepted]
      exact Python.lineScanRemoval e.keep text
  | script jsx => exact CStyle.scanRemoval (.script jsx) e.keep text
  | stylesheet lineComments => exact CStyle.scanRemoval (.stylesheet lineComments) e.keep text
  | php =>
    obtain ⟨fault, failed⟩ := fails text e.keep.sources
    simp only [strip, stripPhp, failed]
    exact CStyle.scanRemoval .php e.keep text
  | markup variant => exact (Markup.scanBlanks e.keep fails variant text).removal

/- No pass undoes what another one did, so a removed comment always shows. -/
theorem noneRemoved {e : Engine} (fails : Php.Fails e.delegate) (family : Family)
    (text : List Char) :
    (e.strip family text).tally.removed = 0 ↔ (e.strip family text).text = text :=
  (stripRemoval e fails family text).same.symm

theorem noneRemovedJinja :
    Php.Fails (withoutPhp .empty).delegate ∧
      ((withoutPhp .empty).strip (.markup .jinja) "<!--\x7b#--> #\x7d".toList).tally = ⟨1, 0⟩ ∧
      (((withoutPhp .empty).strip (.markup .jinja) "<!--\x7b#--> #\x7d".toList).tally.removed = 0 ↔
        ((withoutPhp .empty).strip (.markup .jinja) "<!--\x7b#--> #\x7d".toList).text =
          "<!--\x7b#--> #\x7d".toList) :=
  ⟨Php.noDelegateFails, by decide +kernel, noneRemoved Php.noDelegateFails _ _⟩

end Engine
end CommentStrip
