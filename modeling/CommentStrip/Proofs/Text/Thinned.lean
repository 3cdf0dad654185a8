import CommentStrip.Proofs.Text.Blanked
import CommentStrip.Text.Lines
import Mathlib.Data.List.Forall2

/-! A text in which characters vanished or gave way to spaces. Line feeds never do, so that each
line is thinned by itself. -/
namespace CommentStrip.Text

inductive Thinned : (text out : List Char) → Prop where
  | nil : Thinned [] []
  | same {c text out} (later : Thinned text out) : Thinned (c :: text) (c :: out)
  | gone {c text out} (inLine : c ≠ '\n') (later : Thinned text out) : Thinned (c :: text) out
  | blank {c text out} (inLine : c ≠ '\n') (later : Thinned text out) :
      Thinned (c :: text) (' ' :: out)

/- There are as many lines as before, and nothing is on a line that was not on it, in this order,
but spaces. -/
def LinesKept (text out : List Char) : Prop :=
  List.Forall₂ (fun line left => (left.filter (· != ' ')).Sublist line)
    (cutAt '\n' text) (cutAt '\n' out)

theorem cutAtOther {mark c : Char} (other : c ≠ mark) (rest : List Char) :
    ∃ part later, cutAt mark rest = part :: later ∧
      cutAt mark (c :: rest) = (c :: part) :: later := by
  obtain ⟨part, later, same⟩ := List.exists_cons_of_ne_nil (cutAtNonempty mark rest)
  exact ⟨part, later, same, by simp only [cutAt, if_neg other, same]⟩

namespace Thinned

theorem refl (text : List Char) : Thinned text text := by
  induction text with
  | nil => exact .nil
  | cons c text ih => exact .same ih

theorem append {a b x y : List Char} (front : Thinned a b) (back : Thinned x y) :
    Thinned (a ++ x) (b ++ y) := by
  induction front with
  | nil => exact back
  | same later ih => exact .same ih
  | gone inLine later ih => exact .gone inLine ih
  | blank inLine later ih => exact .blank inLine ih

theorem none {text : List Char} (within : '\n' ∉ text) : Thinned text [] := by
  induction text with
  | nil => exact .nil
  | cons c text ih =>
    rw [List.mem_cons, not_or] at within
    exact .gone (Ne.symm within.1) (ih within.2)

theorem front {line front : List Char} (begins : front <+: line) (within : '\n' ∉ line) :
    Thinned line front := by
  obtain ⟨back, rfl⟩ := begins
  have behind : Thinned back [] := .none fun feed => within (List.mem_append_right front feed)
  simpa using (refl front).append behind

theorem collapse (text : List Char) : Thinned text (Text.collapse text) := by
  induction text with
  | nil => exact .nil
  | cons c text ih =>
    cases lineBreak : isBreak c with
    | true =>
      rw [Text.collapse, List.filter_cons_of_pos lineBreak]
      exact .same ih
    | false =>
      rw [Text.collapse, List.filter_cons_of_neg (by simp [lineBreak])]
      refine .gone ?_ ih
      rintro rfl
      cases lineBreak

theorem flatMap {α : Type} {parts : List α} {text left : α → List Char}
    (each : ∀ part ∈ parts, Thinned (text part) (left part)) :
    Thinned (parts.flatMap text) (parts.flatMap left) := by
  induction parts with
  | nil => exact .nil
  | cons part later ih =>
    obtain ⟨here, behind⟩ := List.forall_mem_cons.mp each
    exact here.append (ih behind)

theorem linesKept {text out : List Char} (thinned : Thinned text out) : LinesKept text out := by
  induction thinned with
  | nil => exact List.Forall₂.cons (List.nil_sublist _) .nil
  | @same c text out later ih =>
    by_cases feed : c = '\n'
    · subst feed
      exact List.Forall₂.cons (List.nil_sublist _) ih
    · obtain ⟨line, lines, cut, whole⟩ := cutAtOther feed text
      obtain ⟨left, lefts, cutLeft, wholeLeft⟩ := cutAtOther feed out
      rw [LinesKept, cut, cutLeft] at ih
      rw [LinesKept, whole, wholeLeft]
      cases ih with
      | cons here behind =>
        refine .cons ?_ behind
        rw [List.filter_cons]
        split
        · exact here.cons_cons c
        · exact here.cons c
  | @gone c text out inLine later ih =>
    obtain ⟨line, lines, cut, whole⟩ := cutAtOther inLine text
    rw [LinesKept, cut] at ih
    rw [LinesKept, whole]
    cases left : cutAt '\n' out with
    | nil => exact absurd left (cutAtNonempty '\n' out)
    | cons left lefts =>
      rw [left] at ih
      cases ih with
      | cons here behind => exact .cons (here.cons c) behind
  | @blank c text out inLine later ih =>
    obtain ⟨line, lines, cut, whole⟩ := cutAtOther inLine text
    obtain ⟨left, lefts, cutLeft, wholeLeft⟩ := cutAtOther (by decide : ' ' ≠ '\n') out
    rw [LinesKept, cut, cutLeft] at ih
    rw [LinesKept, whole, wholeLeft]
    cases ih with
    | cons here behind => exact .cons (here.cons c) behind

end Thinned

theorem Blanked.thinned {text out : List Char} (blanked : Blanked text out) : Thinned text out := by
  induction blanked with
  | nil => exact .nil
  | same later ih => exact .same ih
  | blank inLine later ih =>
    refine .blank ?_ ih
    rintro rfl
    cases inLine

end CommentStrip.Text
