import CommentStrip.Proofs.Settings.Accepted
import Mathlib.Data.List.Basic

/-! Layers of settings. It does not matter which two of three layers are joined first, a layer that
is already in force adds nothing, and what two layers may say together they may say alone. -/
namespace CommentStrip.Settings
open Pattern (Unusable)

/- A list with what `items` add to it behind: each new entry once, in the order in which the items
first come. -/
def Extends (into items result : List String) : Prop :=
  ∃ added, result = into ++ added ∧ added.Nodup ∧ (∀ x, x ∈ added ↔ x ∈ items ∧ x ∉ into) ∧
    added.Pairwise fun x y => items.idxOf x < items.idxOf y

theorem appendNewAppend (into front back : List String) :
    appendNew into (front ++ back) = appendNew (appendNew into front) back := by
  induction front generalizing into with
  | nil => rfl
  | cons item front ih => simp only [List.cons_append, appendNew, ih]

theorem appendNewKnown {into items : List String} (known : ∀ x ∈ items, x ∈ into) :
    appendNew into items = into := by
  induction items with
  | nil => rfl
  | cons item rest ih =>
    obtain ⟨first, others⟩ := List.forall_mem_cons.mp known
    rw [appendNew, if_pos first, ih others]

theorem appendNewTwice (into items : List String) :
    appendNew (appendNew into items) items = appendNew into items :=
  appendNewKnown fun _ listed => memAppendNew.mpr (.inr listed)

/- The induction is on what comes last: an entry that the middle list has is in both results, and
one that it has not may as well be its last. -/
theorem appendNewAssoc (into middle items : List String) :
    appendNew (appendNew into middle) items = appendNew into (appendNew middle items) := by
  induction items generalizing middle with
  | nil => rfl
  | cons item rest ih =>
    rw [appendNew, appendNew]
    by_cases listed : item ∈ middle
    · rw [if_pos listed, if_pos (memAppendNew.mpr (.inr listed)), ih]
    · rw [if_neg listed, ← ih, appendNewAppend]
      rfl

theorem appendNewExtends (into items : List String) :
    Extends into items (appendNew into items) := by
  induction items generalizing into with
  | nil => exact ⟨[], (List.append_nil into).symm, .nil, by simp, .nil⟩
  | cons item rest ih =>
    rw [appendNew]
    by_cases listed : item ∈ into
    · rw [if_pos listed]
      obtain ⟨added, same, once, members, ordered⟩ := ih into
      have other {x : String} (new : x ∈ added) : item ≠ x := by
        rintro rfl
        exact ((members item).mp new).2 listed
      refine ⟨added, same, once, fun x => ?_, ordered.imp_of_mem fun first second before => ?_⟩
      · rw [members, List.mem_cons]
        constructor
        · rintro ⟨later, new⟩
          exact ⟨.inr later, new⟩
        · rintro ⟨rfl | later, new⟩
          · exact absurd listed new
          · exact ⟨later, new⟩
      · rw [List.idxOf_cons_ne rest (other first), List.idxOf_cons_ne rest (other second)]
        exact Nat.succ_lt_succ before
    · rw [if_neg listed]
      obtain ⟨added, same, once, members, ordered⟩ := ih (into ++ [item])
      simp only [List.mem_append, List.mem_singleton, not_or] at members
      have other {x : String} (new : x ∈ added) : item ≠ x := Ne.symm ((members x).mp new).2.2
      refine ⟨item :: added, by rw [same, List.append_assoc]; rfl, ?_, fun x => ?_, ?_⟩
      · exact List.nodup_cons.mpr ⟨fun new => other new rfl, once⟩
      · rw [List.mem_cons, List.mem_cons, members]
        constructor
        · rintro (rfl | ⟨later, new, -⟩)
          · exact ⟨.inl rfl, listed⟩
          · exact ⟨.inr later, new⟩
        · rintro ⟨rfl | later, new⟩
          · exact .inl rfl
          · by_cases same : x = item
            · exact .inl same
            · exact .inr ⟨later, new, same⟩
      · refine List.pairwise_cons.mpr ⟨fun x new => ?_, ?_⟩
        · rw [List.idxOf_cons_ne rest (other new), List.idxOf_cons_self]
          exact Nat.succ_pos _
        · refine ordered.imp_of_mem fun first second before => ?_
          rw [List.idxOf_cons_ne rest (other first), List.idxOf_cons_ne rest (other second)]
          exact Nat.succ_lt_succ before

theorem mergeAssoc (a b c : Settings) : (a.merge b).merge c = a.merge (b.merge c) := by
  simp only [merge, appendNewAssoc, Option.orElse_eq_orElse, Option.orElse_eq_or, Option.or_assoc]

theorem mergeTwice (a b : Settings) : (a.merge b).merge b = a.merge b := by
  have again {α : Type} (later earlier : Option α) : later.or (later.or earlier) =
      later.or earlier := by cases later <;> rfl
  simp only [merge, appendNewTwice, Option.orElse_eq_orElse, Option.orElse_eq_or, again]

theorem mergeExtends (a b : Settings) {list : Settings → List String}
    (isList : list ∈ [keep, excludes, excludeRegexes]) :
    Extends (list a) (list b) (list (a.merge b)) := by
  simp only [List.mem_cons, List.not_mem_nil, or_false] at isList
  rcases isList with rfl | rfl | rfl <;> exact appendNewExtends _ _

theorem mergeMembers (a b : Settings) {list : Settings → List String}
    (isList : list ∈ [keep, excludes, excludeRegexes]) (x : String) :
    x ∈ list (a.merge b) ↔ x ∈ list a ∨ x ∈ list b := by
  simp only [List.mem_cons, List.not_mem_nil, or_false] at isList
  rcases isList with rfl | rfl | rfl <;> exact memAppendNew

theorem mergeEntries (a b : Settings) {list : Settings → List String}
    (isList : list ∈ [keep, excludes, excludeRegexes]) (holds : String → Prop) :
    (∀ x ∈ list (a.merge b), holds x) ↔ ∀ layer ∈ [a, b], ∀ x ∈ list layer, holds x := by
  simp only [mergeMembers a b isList, or_imp, forall_and, List.forall_mem_cons, List.not_mem_nil,
    false_imp_iff, implies_true, and_true]

theorem Accepted.merge [Pattern.Dialect] {a b : Settings} (below : a.Accepted) (above : b.Accepted) :
    (a.merge b).Accepted where
  keep := (mergeEntries a b (by simp) _).mpr (by simpa using ⟨below.keep, above.keep⟩)
  excludeRegexes := (mergeEntries a b (by simp) _).mpr
    (by simpa using ⟨below.excludeRegexes, above.excludeRegexes⟩)
  excludes := (mergeEntries a b (by simp) _).mpr (by simpa using ⟨below.excludes, above.excludes⟩)
  timeout := by
    have either := above.timeout
    rw [Settings.merge]
    cases set : b.php.timeout with
    | none => exact below.timeout
    | some _ => rwa [set] at either
  binary := by
    have either := above.binary
    rw [Settings.merge]
    cases set : b.php.binary with
    | none => exact below.binary
    | some _ => rwa [set] at either

/- Laying one layer over another is associative, does nothing the second time, and nothing with a
layer that says nothing. Each list goes on from the lower layer's with what the upper adds. Joined
layers are accepted when both are, and only when each of their patterns is. -/
theorem layersCompose [Pattern.Dialect] (a b c : Settings) :
    (a.merge b).merge c = a.merge (b.merge c) ∧
    (a.merge b).merge b = a.merge b ∧
    a.merge empty = a ∧
    (∀ list ∈ [keep, excludes, excludeRegexes],
      list a <+: list (a.merge b) ∧ Extends (list a) (list b) (list (a.merge b)) ∧
      ∀ x, x ∈ list (a.merge b) ↔ x ∈ list a ∨ x ∈ list b) ∧
    (a.isValid = true → b.isValid = true → (a.merge b).isValid = true) ∧
    ((a.merge b).isValid = true → ∀ layer ∈ [a, b],
      (∀ source ∈ layer.keep, ¬Unusable source) ∧
      (∀ source ∈ layer.excludeRegexes, ¬Unusable source) ∧
      ∀ glob ∈ layer.excludes, isBlankText glob = false) := by
  refine ⟨mergeAssoc a b c, mergeTwice a b, mergeEmpty a, fun list isList => ?_, ?_, ?_⟩
  · obtain ⟨added, same, -⟩ := mergeExtends a b isList
    exact ⟨⟨added, same.symm⟩, mergeExtends a b isList, mergeMembers a b isList⟩
  · intro below above
    rw [acceptedIff] at below above ⊢
    exact below.merge above
  · intro valid layer listed
    have accepted := (acceptedIff _).mp valid
    exact ⟨(mergeEntries a b (by simp) _).mp accepted.keep layer listed,
      (mergeEntries a b (by simp) _).mp accepted.excludeRegexes layer listed,
      (mergeEntries a b (by simp) _).mp accepted.excludes layer listed⟩

def repeating : Settings :=
  ⟨["noqa", "@license", "noqa"], ["dist/**", "x/**", "x/**"], [], ⟨none, some 0⟩,
    ⟨some false, none, none⟩⟩

theorem layersComposeRepeating :
    builtIn.isValid = true ∧ repeating.isValid = true ∧
      (builtIn.merge repeating).isValid = true ∧
      (builtIn.merge repeating).keep = ["noqa", "@license"] ∧
      (builtIn.merge repeating).excludes = builtInExcludes ++ ["x/**"] ∧
      ¬Unusable "@license" ∧
        (builtIn.merge repeating).merge repeating = builtIn.merge repeating := by
  have below : builtIn.isValid = true := by decide +kernel
  have above : repeating.isValid = true := by decide +kernel
  obtain ⟨-, twice, -, -, joins, parts⟩ := layersCompose builtIn repeating empty
  have joined := joins below above
  have usable := (parts joined repeating (by simp)).1 "@license" (by simp [repeating])
  exact ⟨below, above, joined, by decide +kernel, by decide +kernel, usable, twice⟩

end CommentStrip.Settings
