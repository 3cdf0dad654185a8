import CommentStrip.Proofs.Text.Utf8
import Mathlib.Tactic.SplitIfs

/-! Texts are ordered by their characters as they are by their bytes. -/
namespace CommentStrip.Text.Utf8

theorem groupLess {m n : Nat} (less : m < n) :
    m / 262144 < n / 262144 ∨ m / 262144 = n / 262144 ∧ m / 4096 < n / 4096 ∨
      m / 4096 = n / 4096 ∧ m / 64 < n / 64 ∨ m / 64 = n / 64 := by
  omega

theorem spellingLess {m n : Nat} (less : m < n) (range : n < 1114112) (x y : List UInt8) :
    spelling m ++ x < spelling n ++ y := by
  unfold spelling
  split_ifs
  -- A smaller number never needs more bytes.
  all_goals try omega
  all_goals
    simp only [List.cons_append, List.nil_append, List.cons_lt_cons_iff, UInt8.lt_iff_toNat_lt,
      ← UInt8.toNat_inj, tailNat, UInt8.toNat_ofNat']
    rcases groupLess less with first | ⟨_, second⟩ | ⟨_, third⟩ | last <;> omega

theorem encodeLess {a b : List Char} (less : a < b) : encode a < encode b := by
  induction a generalizing b with
  | nil =>
    cases b with
    | nil => exact absurd less (List.lt_irrefl _)
    | cons d b =>
      obtain ⟨first, more, spelled, -⟩ := headEncode d
      rw [encode, encode, List.flatMap_cons, spelled]
      exact List.nil_lt_cons _ _
  | cons c a ih =>
    cases b with
    | nil => exact absurd less (List.not_lt_nil _)
    | cons d b =>
      rw [encode, encode, List.flatMap_cons, List.flatMap_cons]
      rcases List.cons_lt_cons_iff.mp less with before | ⟨rfl, later⟩
      · have number : c.toNat < d.toNat := before
        have valid : d.toNat < 55296 ∨ 57343 < d.toNat ∧ d.toNat < 1114112 := d.valid
        rw [encodeValue rfl, encodeValue rfl]
        exact spellingLess number (by omega) _ _
      · exact List.append_left_lt (ih later)

end CommentStrip.Text.Utf8
