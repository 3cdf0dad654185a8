import CommentStrip.Proofs.Text.Seam

/-! A text in which some characters gave way to spaces. Line breaks never do, and every character
keeps its place. -/
namespace CommentStrip.Text

inductive Blanked : (text out : List Char) → Prop where
  | nil : Blanked [] []
  | same {c text out} (later : Blanked text out) : Blanked (c :: text) (c :: out)
  | blank {c text out} (inLine : isBreak c = false) (later : Blanked text out) :
      Blanked (c :: text) (' ' :: out)

namespace Blanked

theorem refl (text : List Char) : Blanked text text := by
  induction text with
  | nil => exact .nil
  | cons c text ih => exact .same ih

theorem whole (text : List Char) : Blanked text (Text.blank text) := by
  induction text with
  | nil => exact .nil
  | cons c text ih =>
    simp only [Text.blank, List.map_cons]
    cases lineBreak : isBreak c with
    | true => exact .same ih
    | false => exact .blank lineBreak ih

theorem append {a b x y : List Char} (front : Blanked a b) (back : Blanked x y) :
    Blanked (a ++ x) (b ++ y) := by
  induction front with
  | nil => exact back
  | same later ih => exact .same ih
  | blank inLine later ih => exact .blank inLine ih

theorem length {text out : List Char} (blanked : Blanked text out) : out.length = text.length := by
  induction blanked with
  | nil => rfl
  | same later ih => simp [ih]
  | blank inLine later ih => simp [ih]

theorem trans {a b c : List Char} (first : Blanked a b) (second : Blanked b c) : Blanked a c := by
  induction first generalizing c with
  | nil => exact second
  | same later ih =>
    cases second with
    | same second => exact .same (ih second)
    | blank inLine second => exact .blank inLine (ih second)
  | blank inLine later ih =>
    cases second with
    | same second => exact .blank inLine (ih second)
    | blank other second => exact .blank inLine (ih second)

theorem antisymm {text out : List Char} (blanked : Blanked text out)
    (back : Blanked out text) : out = text := by
  induction blanked with
  | nil => rfl
  | same later ih =>
    cases back with
    | same back => rw [ih back]
    | blank inLine back => rw [ih back]
  | blank inLine later ih =>
    cases back with
    | same back => rw [ih back]
    | blank other back => rw [ih back]

theorem behind {head text out : List Char} (solid : ∀ c ∈ head, c ≠ ' ')
    (blanked : Blanked text (head ++ out)) : ∃ rest, text = head ++ rest ∧ Blanked rest out := by
  induction head generalizing text with
  | nil => exact ⟨text, rfl, blanked⟩
  | cons h head ih =>
    cases blanked with
    | same later =>
      obtain ⟨rest, rfl, blanked⟩ := ih (fun c member => solid c (List.mem_cons_of_mem h member)) later
      exact ⟨rest, rfl, blanked⟩
    | blank inLine later => exact absurd rfl (solid ' ' List.mem_cons_self)

theorem starts {text out : List Char} (blanked : Blanked text out) {head : List Char}
    (solid : ∀ c ∈ head, c ≠ ' ') (begins : startsWith head out = true) :
    startsWith head text = true := by
  obtain ⟨out, rfl⟩ := startsWithIff.mp begins
  obtain ⟨rest, rfl, -⟩ := blanked.behind solid
  exact startsWithIff.mpr ⟨rest, rfl⟩

theorem passes {text out : List Char} (blanked : Blanked text out) {head : List Char}
    (solid : ∀ c ∈ head, c ≠ ' ') (other : startsWith head text = false) :
    startsWith head out = false := by
  rw [Bool.eq_false_iff] at other ⊢
  exact fun begins => other (blanked.starts solid begins)

theorem through {text out : List Char} (blanked : Blanked text out) {stop : List Char}
    (solid : ∀ c ∈ stop, c ≠ ' ') {n : Nat} (found : Text.through stop out = some n) :
    ∃ m, Text.through stop text = some m ∧ m ≤ n := by
  have here : ∀ {text out : List Char} {n : Nat}, startsWith stop text = true →
      Text.through stop out = some n → ∃ m, Text.through stop text = some m ∧ m ≤ n := by
    intro text out n here found
    exact ⟨stop.length, throughHere here, (throughLength found).1⟩
  induction blanked generalizing n with
  | nil => exact ⟨n, found, Nat.le_refl n⟩
  | @same c text out later ih =>
    cases begins : startsWith stop (c :: text) with
    | true => exact here begins found
    | false =>
      rw [throughLater ((Blanked.same later).passes solid begins)] at found
      obtain ⟨n, reached, rfl⟩ := Option.map_eq_some_iff.mp found
      obtain ⟨m, ends, before⟩ := ih reached
      exact ⟨m + 1, by rw [throughLater begins, ends]; rfl, Nat.succ_le_succ before⟩
  | @blank c text out inLine later ih =>
    cases begins : startsWith stop (c :: text) with
    | true => exact here begins found
    | false =>
      rw [throughLater ((Blanked.blank inLine later).passes solid begins)] at found
      obtain ⟨n, reached, rfl⟩ := Option.map_eq_some_iff.mp found
      obtain ⟨m, ends, before⟩ := ih reached
      exact ⟨m + 1, by rw [throughLater begins, ends]; rfl, Nat.succ_le_succ before⟩

theorem member {text out : List Char} (blanked : Blanked text out) {c : Char} (solid : c ≠ ' ')
    (inside : c ∈ out) : c ∈ text := by
  induction blanked with
  | nil => exact inside
  | same later ih =>
    rcases List.mem_cons.mp inside with rfl | later
    · exact List.mem_cons_self
    · exact List.mem_cons_of_mem _ (ih later)
  | blank inLine later ih =>
    rcases List.mem_cons.mp inside with rfl | later
    · exact absurd rfl solid
    · exact List.mem_cons_of_mem _ (ih later)

theorem at? {text out : List Char} (blanked : Blanked text out) {i : Nat} {c : Char}
    (here : text[i]? = some c) :
    out[i]? = some c ∨ out[i]? = some ' ' ∧ isBreak c = false := by
  induction blanked generalizing i with
  | nil => cases here
  | same later ih =>
    cases i with
    | zero => exact .inl here
    | succ i => exact ih here
  | blank inLine later ih =>
    cases i with
    | zero =>
      cases here
      exact .inr ⟨rfl, inLine⟩
    | succ i => exact ih here

end Blanked
end CommentStrip.Text
