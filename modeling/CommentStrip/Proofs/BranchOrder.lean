import CommentStrip.Proofs.CStyle.Lexer
import CommentStrip.Proofs.Markup.Forms

/-! The order of the branches of a search. No two branches of a family match at the same place, so
that a find which is vetoed hides no other, and any order of the branches finds the same. -/
namespace CommentStrip
open Text

namespace Alternation
variable {μ : Type} {a b : Alternation μ}

theorem matchAtPermuted (order : a.branches.Perm b.branches) {here : List Char}
    (agree : ∀ f ∈ b.branches, ∀ g ∈ b.branches, ∀ x y, f here = some x → g here = some y → x = y) :
    a.matchAt here = b.matchAt here := by
  have agreeToo : ∀ f ∈ a.branches, ∀ g ∈ a.branches, ∀ x y, f here = some x → g here = some y →
      x = y := fun f knownF g knownG => agree f (order.mem_iff.mp knownF) g (order.mem_iff.mp knownG)
  refine Option.ext fun found => ?_
  rw [matchAtIff agreeToo, matchAtIff agree]
  simp only [order.mem_iff]

theorem searchFromSame (width : a.width = b.width) (same : ∀ here, a.matchAt here = b.matchAt here)
    (accept : Acceptance μ) (before gap text : List Char) :
    a.searchFrom accept before gap text = b.searchFrom accept before gap text := by
  have spoke (before here : List Char) :
      a.accepted? accept before here = b.accepted? accept before here := by
    rw [accepted?, accepted?, same, width]
  fun_induction searchFrom a accept before gap text with
  | case1 => rw [searchFrom]
  | case2 before gap c rest found accepted more taken ih =>
    rw [spoke] at accepted
    rw [searchOver accepted, ih, ← width]
  | case3 before gap c rest passed ih =>
    rw [spoke] at passed
    rw [searchPast passed, ih]

theorem searchPermuted {order : List (List Char → Option μ)} (same : order.Perm a.branches)
    (agree : ∀ here, ∀ f ∈ a.branches, ∀ g ∈ a.branches, ∀ x y, f here = some x → g here = some y →
      x = y) (accept : Acceptance μ) (text : List Char) :
    (Alternation.mk order a.width).search accept text = a.search accept text :=
  @searchFromSame μ ⟨order, a.width⟩ a rfl (fun here => matchAtPermuted same (agree here)) accept [] []
    text

end Alternation

theorem Expression.matchSome {e : Expression} {text : List Char} (matched : e.ends text ≠ []) :
    ∃ n, e.extent text = some n := by
  obtain ⟨n, rest, same⟩ := List.exists_cons_of_ne_nil matched
  exact ⟨n, by rw [extent, same]; rfl⟩

namespace CStyle

theorem expressionLeads {branch : Branch} {text : List Char}
    (matched : branch.expression.ends text ≠ []) : ledBy text = some branch := by
  obtain ⟨n, extent⟩ := Expression.matchSome matched
  exact extentLeads ((expressionExtent branch text).symm.trans extent)

end CStyle

namespace Markup

theorem formPromised {kind : BlockKind ⊕ CommentKind} {before text : List Char}
    (matched : (formOf kind).ends before text ≠ []) : promised text = some kind := by
  obtain ⟨n, rest, same⟩ := List.exists_cons_of_ne_nil matched
  have extent : (formOf kind).extent before text = some n := by rw [Form.extent, same]; rfl
  rw [formExtent] at extent
  obtain ⟨region, found, -⟩ := Option.map_eq_some_iff.mp extent
  cases kind with
  | inl kind => exact (blockPromised found).2
  | inr kind => exact (commentPromised found).2

end Markup

/- At every place at most one of the nine expressions of the one family matches, and at most one of
the six of the other. What is found there leaves the others without a match, accepted or not, and a
search with the branches in any other order has the same finds in the same places. -/
theorem branchOrderFree :
    (∀ text (branch other : CStyle.Branch), branch.expression.ends text ≠ [] →
      other.expression.ends text ≠ [] → branch = other) ∧
    (∀ before text kind other, (Markup.formOf kind).ends before text ≠ [] →
      (Markup.formOf other).ends before text ≠ [] → kind = other) ∧
    (∀ o here found, (CStyle.alternation o).matchAt here = some found →
      ∀ branch ≠ found.branch, branch.expression.ends here = []) ∧
    (∀ variant before here region, (Markup.alternation variant).matchAt here = some region →
      ∀ kind ≠ Markup.kindOf region, (Markup.formOf kind).ends before here = []) ∧
    (∀ o order, order.Perm (CStyle.alternation o).branches → ∀ accept text,
      (Alternation.mk order (CStyle.alternation o).width).search accept text =
        (CStyle.alternation o).search accept text) ∧
    (∀ variant order, order.Perm (Markup.alternation variant).branches → ∀ accept text,
      (Alternation.mk order (Markup.alternation variant).width).search accept text =
        (Markup.alternation variant).search accept text) := by
  refine ⟨?_, ?_, ?_, ?_, ?_, ?_⟩
  · intro text branch other matched matchedToo
    have led := CStyle.expressionLeads matched
    exact Option.some.inj (led.symm.trans (CStyle.expressionLeads matchedToo))
  · intro before text kind other matched matchedToo
    have promise := Markup.formPromised matched
    exact Option.some.inj (promise.symm.trans (Markup.formPromised matchedToo))
  · intro o here found matched branch other
    have led := (CStyle.findLeads (CStyle.matchReads matched).2).2
    refine Classical.byContradiction fun more => other ?_
    exact Option.some.inj ((CStyle.expressionLeads more).symm.trans led)
  · intro variant before here region matched kind other
    obtain ⟨branch, known, found⟩ := List.exists_of_findSome?_eq_some matched
    have promise := (Markup.branchPromised known found).1
    refine Classical.byContradiction fun more => other ?_
    exact Option.some.inj ((Markup.formPromised more).symm.trans promise)
  · intro o order same accept text
    exact Alternation.searchPermuted same (CStyle.findsAgree o) accept text
  · intro variant order same accept text
    exact Alternation.searchPermuted same Markup.branchesAgree accept text

theorem branchOrderFreeReversed :
    CStyle.Branch.blockComment.expression.ends "/**/".toList ≠ [] ∧
      CStyle.Branch.lineComment.expression.ends "/**/".toList = [] ∧
      (Markup.alternation .blade).matchAt "<!---->".toList = some (.comment .html 7) ∧
      (Markup.formOf (.inl .style)).ends [] "<!---->".toList = [] ∧
      ∀ accept text,
        (Alternation.mk (Markup.alternation .blade).branches.reverse Markup.Region.width).search
            accept text = (Markup.alternation .blade).search accept text := by
  obtain ⟨one, -, -, vetoed, -, order⟩ := branchOrderFree
  have block : CStyle.Branch.blockComment.expression.ends "/**/".toList ≠ [] := by decide
  have html : (Markup.alternation .blade).matchAt "<!---->".toList = some (.comment .html 7) := by
    decide
  refine ⟨block, ?_, html, vetoed _ _ _ _ html _ (by decide), order _ _ (List.reverse_perm _)⟩
  exact Classical.byContradiction fun line => absurd (one _ _ _ block line) (by decide)

end CommentStrip
