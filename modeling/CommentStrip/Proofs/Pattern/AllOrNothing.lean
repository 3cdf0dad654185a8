import CommentStrip.Exclude
import CommentStrip.Keep
import CommentStrip.Proofs.Settings.Accepted
import Mathlib.Data.List.Forall2

/-! A list of sources gives one pattern for each of them, in their order, or a report with one line
for each that gives none. -/
namespace CommentStrip

namespace Pattern

section
variable [Dialect]

/- A source that gives a pattern, known by the texts that it occurs in. -/
structure Reads (source : String) (holds : Matcher) : Prop where
  short : source.utf8ByteSize ≤ 500
  read : Dialect.read (10 * 1024 * 1024) source = .ok holds

/- What a report says of a source that gives none. The length is looked at first. -/
inductive Told (option source : String) : String → Prop
  | tooLong (long : 500 < source.utf8ByteSize) : Told option source
      ("Pattern '" ++ source ++ "': length (" ++ toString source.utf8ByteSize ++
        ") exceeds maximum allowed (500)")
  | unreadable {report} (short : source.utf8ByteSize ≤ 500)
      (failed : Dialect.read (10 * 1024 * 1024) source = .error report) : Told option source
      ("Failed to compile " ++ option ++ " '" ++ source ++ "' pattern: " ++ report)

variable {option source : String} {sources : List String}

theorem readsIff {holds : Matcher} :
    compileOne option source = .ok holds ↔ Reads source holds := by
  unfold compileOne maxLength sizeLimit
  constructor
  · intro compiled
    split at compiled
    · cases compiled
    · rename_i short
      split at compiled <;> cases compiled
      exact ⟨Nat.le_of_not_lt short, by assumption⟩
  · rintro ⟨short, read⟩
    rw [if_neg (Nat.not_lt.mpr short), read]

theorem usableIff : ¬Unusable source ↔
    source.utf8ByteSize ≤ 500 ∧ ∃ holds, Dialect.read (10 * 1024 * 1024) source = .ok holds := by
  rw [Unusable, not_or, Nat.not_lt]
  cases Dialect.read (10 * 1024 * 1024) source <;> simp

theorem rejectionTold {rejection : Rejection}
    (rejected : compileOne option source = .error rejection) :
    Told option source rejection.message := by
  unfold compileOne at rejected
  split at rejected
  · cases rejected
    have limit : ") exceeds maximum allowed (" ++ (toString maxLength ++ ")") =
        ") exceeds maximum allowed (500)" := by decide
    have told := @Told.tooLong _ option source (by assumption)
    rwa [← limit, ← String.append_assoc, ← String.append_assoc] at told
  · rename_i short
    split at rejected <;> cases rejected
    exact .unreadable (Nat.le_of_not_lt short) (by assumption)

theorem patternsRead (none : sources.filterMap (rejection? option) = []) :
    List.Forall₂ Reads sources (sources.filterMap (usable? option)) := by
  induction sources with
  | nil => exact .nil
  | cons source rest ih =>
    cases compiled : compileOne option source with
    | error rejection =>
      rw [List.filterMap_cons_some (by rw [rejection?, compiled])] at none
      cases none
    | ok p =>
      rw [List.filterMap_cons_none (by rw [rejection?, compiled])] at none
      rw [List.filterMap_cons_some (by rw [usable?, compiled]; rfl)]
      exact .cons (readsIff.mp compiled) (ih none)

theorem compileReads {patterns : List Matcher} :
    compile option sources = .ok patterns ↔ List.Forall₂ Reads sources patterns := by
  constructor
  · intro compiled
    unfold compile at compiled
    split at compiled <;> cases compiled
    exact patternsRead (by assumption)
  · intro reads
    have parts : sources.filterMap (rejection? option) = [] ∧
        sources.filterMap (usable? option) = patterns := by
      induction reads with
      | nil => exact ⟨rfl, rfl⟩
      | cons first later ih =>
        have compiled := (@readsIff _ option _ _).mpr first
        simp [rejection?, usable?, compiled, Except.toOption, ih]
    unfold compile
    rw [parts.1, parts.2]

theorem rejectionsTold (option : String) (sources : List String) :
    List.Forall₂ (Told option) (sources.filter (Unusable ·))
      ((sources.filterMap (rejection? option)).map Rejection.message) := by
  induction sources with
  | nil => exact .nil
  | cons source rest ih =>
    cases compiled : compileOne option source with
    | error rejection =>
      have unusable := (unusableIff option source).mpr ⟨rejection, compiled⟩
      rw [List.filter_cons_of_pos (by simpa using unusable),
        List.filterMap_cons_some (by rw [rejection?, compiled])]
      exact .cons (rejectionTold compiled) ih
    | ok p =>
      have usable : ¬Unusable source := by
        rw [unusableIff option, compiled]
        simp
      rw [List.filter_cons_of_neg (by simpa using usable),
        List.filterMap_cons_none (by rw [rejection?, compiled])]
      exact ih

theorem compileTold {bad : BadPatterns} (failed : compile option sources = .error bad) :
    ∃ body, bad.message = "A fatal error occurred: Invalid " ++ option ++ " pattern(s) (" ++
        toString (sources.filter (Unusable ·)).length ++ "):\n" ++ String.intercalate "\n" body ∧
      List.Forall₂ (Told option) (sources.filter (Unusable ·)) body := by
  obtain ⟨named, all⟩ : bad.option = option ∧
      bad.rejections = sources.filterMap (rejection? option) := by
    unfold compile at failed
    split at failed
    · cases failed
    · rw [← Except.error.inj failed]
      exact ⟨rfl, rfl⟩
  have told := rejectionsTold option sources
  rw [← all] at told
  have count := told.length_eq
  rw [List.length_map] at count
  refine ⟨bad.rejections.map Rejection.message, ?_, told⟩
  unfold BadPatterns.message
  rw [named, count]

end

end Pattern

theorem pairedIff {α β γ : Type} {pair : α × β → γ} {first : γ → α} {second : γ → β}
    (firsts : ∀ x, first (pair x) = x.1) (seconds : ∀ x, second (pair x) = x.2)
    (pairs : ∀ c, pair (first c, second c) = c) {related : α → β → Prop} {as : List α}
    {cs : List γ} : List.Forall₂ (fun a c => first c = a ∧ related a (second c)) as cs ↔
      ∃ bs, List.Forall₂ related as bs ∧ cs = (as.zip bs).map pair := by
  constructor
  · intro together
    induction together with
    | nil => exact ⟨[], .nil, rfl⟩
    | @cons a c as cs here later ih =>
      obtain ⟨bs, beside, rfl⟩ := ih
      obtain ⟨rfl, relates⟩ := here
      exact ⟨second c :: bs, .cons relates beside, by rw [List.zip_cons_cons, List.map_cons, pairs]⟩
  · rintro ⟨bs, beside, rfl⟩
    induction beside with
    | nil => exact .nil
    | cons relates later ih =>
      exact .cons ⟨firsts _, by rwa [seconds]⟩ ih

theorem pairedParts {α β γ : Type} {first : γ → α} {second : γ → β} {related : α → β → Prop}
    {as : List α} {cs : List γ}
    (together : List.Forall₂ (fun a c => first c = a ∧ related a (second c)) as cs) :
    cs.map first = as ∧ ∀ c ∈ cs, related (first c) (second c) := by
  induction together with
  | nil => exact ⟨rfl, nofun⟩
  | cons here later ih =>
    obtain ⟨rfl, relates⟩ := here
    exact ⟨by rw [List.map_cons, ih.1], List.forall_mem_cons.mpr ⟨relates, ih.2⟩⟩

section
variable [Pattern.Dialect]

theorem KeepSet.compileReads {sources : List String} {keep : KeepSet} :
    compile sources = .ok keep ↔ List.Forall₂
      (fun source d => Directive.source d = source ∧ Pattern.Reads source d.holds)
      sources keep.directives := by
  rw [@pairedIff _ _ _ (fun x => Directive.mk x.1 x.2) Directive.source Directive.holds
    (fun _ => rfl) (fun _ => rfl) (fun _ => rfl)]
  simp only [← @Pattern.compileReads _ "keep-directive"]
  unfold compile
  cases Pattern.compile "keep-directive" sources with
  | error bad => exact ⟨nofun, nofun⟩
  | ok patterns =>
    constructor
    · intro made
      exact ⟨patterns, rfl, congrArg KeepSet.directives (Except.ok.inj made).symm⟩
    · rintro ⟨_, ⟨⟩, same⟩
      obtain ⟨directives⟩ := keep
      subst same
      rfl

theorem ExcludeSet.compileReads {globs regexes : List String} {set : ExcludeSet} :
    compile globs regexes = .ok set ↔
      List.Forall₂ (fun glob rule => Glob.Rule.glob rule = glob ∧
        Pattern.Reads (String.ofList (Glob.expression glob.toList)) rule.covers) globs set.globs ∧
      List.Forall₂ Pattern.Reads regexes set.regexes := by
  rw [@pairedIff _ _ _ (fun x => Glob.Rule.mk x.1 x.2) Glob.Rule.glob Glob.Rule.covers
    (fun _ => rfl) (fun _ => rfl) (fun _ => rfl), ← @Pattern.compileReads _ "exclude-regex" regexes]
  simp only [← List.forall₂_map_left_iff (f := fun glob : String =>
    String.ofList (Glob.expression glob.toList)), ← @Pattern.compileReads _ "exclude"]
  unfold compile
  simp only
  cases Pattern.compile "exclude" (globs.map fun glob =>
      String.ofList (Glob.expression glob.toList)) with
  | error bad => exact ⟨nofun, nofun⟩
  | ok patterns =>
    cases Pattern.compile "exclude-regex" regexes with
    | error bad => exact ⟨nofun, nofun⟩
    | ok read =>
      constructor
      · intro made
        cases made
        exact ⟨⟨patterns, rfl, rfl⟩, rfl⟩
      · rintro ⟨⟨_, ⟨⟩, same⟩, ⟨⟩⟩
        obtain ⟨rules, regexes⟩ := set
        subst same
        rfl

theorem KeepSet.holdsIff {sources : List String} {keep : KeepSet}
    (compiled : compile sources = .ok keep) (comment : List Char) :
    keep.holds comment = true ↔
      ∃ source ∈ sources, ∃ occurs, Pattern.Reads source occurs ∧ occurs comment = true := by
  obtain ⟨rfl, reads⟩ := pairedParts (KeepSet.compileReads.mp compiled)
  simp only [holds, List.any_eq_true, List.mem_map]
  constructor
  · rintro ⟨d, listed, found⟩
    exact ⟨d.source, ⟨d, listed, rfl⟩, d.holds, reads d listed, found⟩
  · rintro ⟨_, ⟨d, listed, rfl⟩, occurs, other, found⟩
    obtain rfl := Except.ok.inj (other.read.symm.trans (reads d listed).read)
    exact ⟨d, listed, found⟩

end

namespace Pattern

section
variable [Dialect]

def AllRead (sources : List String) : Prop :=
  ∀ source ∈ sources, source.utf8ByteSize ≤ 500 ∧
    ∃ holds, Dialect.read (10 * 1024 * 1024) source = .ok holds

theorem allReadIff (option : String) (sources : List String) :
    (∃ patterns, compile option sources = .ok patterns) ↔ AllRead sources := by
  rw [compileUsable, AllRead]
  exact forall₂_congr fun _ _ => usableIff

/- Whatever the dialect, patterns are made of all sources or of none. They stand in the order of
their sources, so that directives and rules go with the sources they are of; a report counts the
sources that give no pattern and says why, one after the other. -/
theorem compileAllOrNothing (option : String) (sources globs : List String) :
    ((∃ patterns, compile option sources = .ok patterns) ↔ AllRead sources) ∧
    (∀ patterns, compile option sources = .ok patterns ↔ List.Forall₂ Reads sources patterns) ∧
    (∀ bad, compile option sources = .error bad → ∃ body,
      bad.message = "A fatal error occurred: Invalid " ++ option ++ " pattern(s) (" ++
        toString (sources.filter (Unusable ·)).length ++ "):\n" ++ String.intercalate "\n" body ∧
      List.Forall₂ (Told option) (sources.filter (Unusable ·)) body) ∧
    ((∃ keep, KeepSet.compile sources = .ok keep) ↔ AllRead sources) ∧
    (∀ keep, KeepSet.compile sources = .ok keep →
      keep.sources = sources ∧ (∀ d ∈ keep.directives, Reads d.source d.holds) ∧
      ∀ comment, keep.holds comment = true ↔
        ∃ source ∈ sources, ∃ occurs, Reads source occurs ∧ occurs comment = true) ∧
    ((∃ set, ExcludeSet.compile globs sources = .ok set) ↔
      AllRead (globs.map fun glob => String.ofList (Glob.expression glob.toList)) ∧
      AllRead sources) ∧
    ∀ set, ExcludeSet.compile globs sources = .ok set →
      set.globs.map Glob.Rule.glob = globs ∧
      (∀ rule ∈ set.globs,
        Reads (String.ofList (Glob.expression rule.glob.toList)) rule.covers) ∧
      List.Forall₂ Reads sources set.regexes := by
  refine ⟨allReadIff option sources, fun _ => compileReads, fun _ => compileTold, ?_, ?_, ?_, ?_⟩
  · rw [← allReadIff "keep-directive", KeepSet.compile]
    cases compile "keep-directive" sources <;> simp [Except.map]
  · intro keep compiled
    obtain ⟨named, reads⟩ := pairedParts (KeepSet.compileReads.mp compiled)
    exact ⟨named, reads, KeepSet.holdsIff compiled⟩
  · rw [← allReadIff "exclude", ← allReadIff "exclude-regex", ExcludeSet.compile]
    cases compile "exclude" (globs.map fun glob => String.ofList (Glob.expression glob.toList)) <;>
      cases compile "exclude-regex" sources <;> simp
  · intro set compiled
    obtain ⟨together, regexes⟩ := ExcludeSet.compileReads.mp compiled
    obtain ⟨named, reads⟩ := pairedParts together
    exact ⟨named, reads, regexes⟩

end

theorem compileAllOrNothingMixed : ∃ bad body,
    compile "keep-directive" ["[y", "noqa", "(x", "[y"] = .error bad ∧
    bad.message = "A fatal error occurred: Invalid keep-directive pattern(s) (3):\n" ++
      String.intercalate "\n" body ∧
    List.Forall₂ (Told "keep-directive") ["[y", "(x", "[y"] body := by
  obtain ⟨-, -, failure, -⟩ :=
    compileAllOrNothing "keep-directive" ["[y", "noqa", "(x", "[y"] []
  have some : ["[y", "noqa", "(x", "[y"].filter (Unusable ·) = ["[y", "(x", "[y"] := by
    decide +kernel
  cases failed : compile "keep-directive" ["[y", "noqa", "(x", "[y"] with
  | ok patterns =>
    have none : (compile "keep-directive" ["[y", "noqa", "(x", "[y"]).toOption = none := by
      decide +kernel
    rw [failed] at none
    cases none
  | error bad =>
    obtain ⟨body, message, told⟩ := failure bad failed
    rw [some] at message told
    exact ⟨bad, body, rfl, message, told⟩

end Pattern
end CommentStrip
