import CommentStrip.Proofs.Settings.Accepted

/-! A report about settings names every pattern that cannot be used. -/
namespace CommentStrip

def Says (message text : String) : Prop := text.toList <:+: message.toList

namespace Says

theorem refl (message : String) : Says message message := List.infix_rfl

theorem front {left text : String} (named : Says left text) (right : String) :
    Says (left ++ right) text := by
  rw [Says, String.toList_append]
  exact List.infix_append_of_infix_left named

theorem behind {right text : String} (left : String) (named : Says right text) :
    Says (left ++ right) text := by
  rw [Says, String.toList_append]
  exact List.infix_append_of_infix_right named

theorem trans {message part text : String} (outer : Says message part) (inner : Says part text) :
    Says message text := List.IsInfix.trans inner outer

theorem joined {part : String} {parts : List String} (mark : String) (listed : part ∈ parts) :
    Says (String.intercalate mark parts) part := by
  rw [Says, String.toList_intercalate]
  induction parts with
  | nil => cases listed
  | cons first rest ih =>
    cases rest with
    | nil =>
      obtain rfl := List.mem_singleton.mp listed
      simp
    | cons second rest =>
      rw [List.map_cons, List.map_cons, List.intercalate_cons_cons, ← List.map_cons]
      rcases List.mem_cons.mp listed with rfl | later
      · rw [List.append_assoc]
        exact List.infix_append_left
      · exact List.infix_append_of_infix_right (ih later)

end Says

namespace Pattern
variable [Dialect]

theorem rejectionNames {option source : String} {rejection : Rejection}
    (rejected : compileOne option source = .error rejection) : Says rejection.message source := by
  unfold compileOne at rejected
  split at rejected
  · obtain rfl := Except.error.inj rejected
    unfold Rejection.message
    exact (((((Says.refl source).behind _).front _).front _).front _).front _ |>.front _
  · split at rejected
    · cases rejected
    · obtain rfl := Except.error.inj rejected
      unfold Rejection.message
      exact ((Says.refl source).behind _).front _ |>.front _

theorem badPatternsName (option : String) {source : String} {sources : List String}
    (listed : source ∈ sources) (unusable : Unusable source) :
    ∃ bad, compile option sources = .error bad ∧ Says bad.message source := by
  obtain ⟨rejection, rejected⟩ := (unusableIff option source).mp unusable
  have member : rejection ∈ sources.filterMap (rejection? option) :=
    List.mem_filterMap.mpr ⟨source, listed, by rw [rejection?, rejected]⟩
  unfold compile
  split
  · rename_i none
    rw [none] at member
    cases member
  · refine ⟨_, rfl, ?_⟩
    unfold BadPatterns.message
    have named := (Says.joined "\n" (List.mem_map_of_mem (f := Rejection.message) member)).trans
      (rejectionNames rejected)
    exact named.behind _

end Pattern

namespace Settings
open Pattern (Unusable)
variable [Pattern.Dialect]

theorem problemNames (option : String) {source : String} {sources : List String}
    (listed : source ∈ sources) (unusable : Unusable source) :
    ∃ problem ∈ patternProblems option sources, Says problem.message source := by
  obtain ⟨bad, rejected, named⟩ := Pattern.badPatternsName option listed unusable
  rw [patternProblems, rejected]
  exact ⟨_, List.mem_singleton.mpr rfl, named⟩

theorem messageNames {s : Settings} {source : String} (unusable : Unusable source)
    (listed : source ∈ s.keep ∨ source ∈ s.excludeRegexes) :
    Says (invalidMessage s.problems) source := by
  obtain ⟨problem, among, named⟩ : ∃ problem ∈ s.problems, Says problem.message source := by
    unfold problems
    simp only [List.append_assoc, List.mem_append]
    rcases listed with listed | listed
    · obtain ⟨problem, among, named⟩ := problemNames "keep-directive" listed unusable
      exact ⟨problem, .inl among, named⟩
    · obtain ⟨problem, among, named⟩ := problemNames "exclude-regex" listed unusable
      exact ⟨problem, .inr (.inl among), named⟩
  unfold invalidMessage
  exact ((Says.joined "\n" (List.mem_map_of_mem (f := Problem.message) among)).trans
    named).behind _

end Settings

end CommentStrip
