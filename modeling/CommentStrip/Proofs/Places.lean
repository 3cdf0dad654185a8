import CommentStrip.Engine
import CommentStrip.Proofs.CStyle.Changed
import CommentStrip.Proofs.Markup.Removed

/-! Where comments give way to spaces every character keeps its place, and where the spans are
known only those of comments change. -/
namespace CommentStrip
open Text

namespace Family

def blanks : Family → Bool
  | .python | .script true => false
  | .script false | .stylesheet _ | .php | .markup _ => true

def rules : Family → Option CStyle.Options
  | .script jsx => some (.script jsx)
  | .stylesheet lineComments => some (.stylesheet lineComments)
  | .php => some .php
  | .python | .markup _ => none

end Family

structure KeepsPlaces (text out : List Char) : Prop where
  length : out.length = text.length
  places : ∀ (i : Nat) c, text[i]? = some c →
    out[i]? = some c ∨ out[i]? = some ' ' ∧ c ≠ '\n' ∧ c ≠ '\r'

theorem Text.Blanked.keepsPlaces {text out : List Char} (blanked : Blanked text out) :
    KeepsPlaces text out := by
  refine ⟨blanked.length, ?_⟩
  intro i c here
  rcases blanked.at? here with same | ⟨space, inLine⟩
  · exact .inl same
  · exact .inr ⟨space, by simpa [isBreak] using inLine⟩

namespace Engine

theorem stripRules {e : Engine} (fails : Php.Fails e.delegate) {family : Family}
    {o : CStyle.Options} (rules : family.rules = some o) (text : List Char) :
    (e.strip family text).text = (CStyle.scan o e.keep text).1 := by
  cases family with
  | script jsx | stylesheet lineComments =>
    cases rules
    rfl
  | php =>
    cases rules
    obtain ⟨fault, failed⟩ := fails text e.keep.sources
    simp only [strip, stripPhp, failed]
  | python | markup variant => cases rules

theorem rulesPlain {family : Family} (blanks : family.blanks = true) {o : CStyle.Options}
    (rules : family.rules = some o) : o.jsx = false := by
  cases family with
  | script jsx =>
    cases jsx <;> cases rules
    · rfl
    · cases blanks
  | stylesheet lineComments | php =>
    cases rules
    rfl
  | python | markup variant => cases rules

theorem stripBlanked {e : Engine} (fails : Php.Fails e.delegate) {family : Family}
    (blanks : family.blanks = true) (text : List Char) :
    Blanked text (e.strip family text).text := by
  cases rules : family.rules with
  | some o =>
    rw [stripRules fails rules]
    exact CStyle.scanBlanked (rulesPlain blanks rules) e.keep text
  | none =>
    cases family with
    | markup variant => exact (Markup.scanBlanks e.keep fails variant text).blanked
    | python => cases blanks
    | script jsx | stylesheet lineComments | php => cases rules

/- Nothing moves, and nothing but comments changes. -/
theorem stripKeepsPlaces {e : Engine} (fails : Php.Fails e.delegate) {family : Family}
    (blanks : family.blanks = true) (text : List Char) :
    KeepsPlaces text (e.strip family text).text ∧
      ∀ o, family.rules = some o → ∀ i, (e.strip family text).text[i]? ≠ text[i]? →
        CStyle.InComment o e.keep text i := by
  refine ⟨(stripBlanked fails blanks text).keepsPlaces, ?_⟩
  intro o rules i changed
  rw [stripRules fails rules] at changed
  exact CStyle.scanChanges (rulesPlain blanks rules) e.keep text changed

theorem stripKeepsPlacesPhp :
    Php.Fails (withoutPhp .empty).delegate ∧ Family.blanks .php = true ∧
      ((withoutPhp .empty).strip .php "é=1; # ü\r\n".toList).text = "é=1;    \r\n".toList ∧
      KeepsPlaces "é=1; # ü\r\n".toList
        ((withoutPhp .empty).strip .php "é=1; # ü\r\n".toList).text ∧
      CStyle.InComment .php .empty "é=1; # ü\r\n".toList 7 := by
  have left : ((withoutPhp .empty).strip .php "é=1; # ü\r\n".toList).text =
      "é=1;    \r\n".toList := by decide +kernel
  have blanks : Family.blanks .php = true := rfl
  obtain ⟨places, inside⟩ :=
    stripKeepsPlaces (e := withoutPhp .empty) Php.noDelegateFails blanks "é=1; # ü\r\n".toList
  exact ⟨Php.noDelegateFails, blanks, left, places, inside .php rfl 7 (by rw [left]; decide)⟩

end Engine
end CommentStrip
