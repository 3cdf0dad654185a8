import CommentStrip.Run.Strip
import CommentStrip.Proofs.Settings.Accepted

/-! When a run can be set up, and what becomes of one that is. -/
namespace CommentStrip.Run
open CommandLine (EngineFlags ExcludeFlags WhitespaceFlags)
open Pattern (Unusable)

theorem settingsIff [Pattern.Dialect] [Settings.Format] {root : FileTree} {flags : EngineFlags}
    {exclude : ExcludeFlags} {whitespace : WhitespaceFlags} {s : Settings} :
    settings root flags exclude whitespace = .ok s ↔
      ∃ base, baseSettings root flags = .ok base ∧
        s = base.merge (CommandLine.layer flags exclude whitespace) ∧ s.isValid = true := by
  unfold settings
  cases baseSettings root flags with
  | error failure => exact ⟨nofun, nofun⟩
  | ok base =>
    simp only [bind, Except.bind]
    constructor
    · intro given
      split at given
      · rename_i valid
        cases given
        exact ⟨base, rfl, rfl, valid⟩
      · cases given
    · rintro ⟨base, ⟨⟩, rfl, valid⟩
      exact if_pos valid

theorem excludeSetIff [Pattern.Dialect] (s : Settings) : (∃ set, excludeSet s = .ok set) ↔
    (∀ glob ∈ s.excludes, ¬Unusable (String.ofList (Glob.expression glob.toList))) ∧
      ∀ source ∈ s.excludeRegexes, ¬Unusable source := by
  have globs := Pattern.compileUsable "exclude"
    (s.excludes.map fun glob => String.ofList (Glob.expression glob.toList))
  rw [List.forall_mem_map] at globs
  rw [← globs, ← Pattern.compileUsable "exclude-regex", excludeSet, ExcludeSet.compile]
  cases Pattern.compile "exclude"
      (s.excludes.map fun glob => String.ofList (Glob.expression glob.toList)) <;>
    cases Pattern.compile "exclude-regex" s.excludeRegexes <;> simp

theorem builtInAccepted : Settings.builtIn.isValid = true := by decide +kernel

theorem builtInRules : ∃ set, ∀ s : Settings, s.excludes = Settings.builtInExcludes →
    s.excludeRegexes = [] → excludeSet s = .ok set := by
  have usable : (ExcludeSet.compile Settings.builtInExcludes []).toOption.isSome = true := by
    decide +kernel
  cases rules : ExcludeSet.compile Settings.builtInExcludes [] with
  | error bad =>
    rw [rules] at usable
    cases usable
  | ok set => exact ⟨set, fun s globs regexes => by rw [excludeSet, globs, regexes, rules]⟩

theorem plainSettings (root : FileTree) :
    settings root ⟨none, [], true, none, none⟩ .none .none =
      .ok { Settings.builtIn with php := ⟨some false, some "php", some 10000⟩ } :=
  settingsIff.mpr ⟨.builtIn, rfl, rfl, builtInAccepted⟩

theorem keepCompiles [Pattern.Dialect] {s : Settings} (valid : s.isValid = true) :
    ∃ keep, KeepSet.compile s.keep = .ok keep := by
  obtain ⟨patterns, compiled⟩ := (Pattern.compileUsable "keep-directive" s.keep).mpr
    ((Settings.acceptedIff s).mp valid).keep
  exact ⟨_, by rw [KeepSet.compile, compiled]; rfl⟩

section
variable {find : List Char → Php.Interpreter} {root : FileTree} {o : CommandLine.Strip}
  {s : Settings} {set : ExcludeSet} {e : Engine} {found : List Source} {log : String}

theorem engineMade [Pattern.Dialect] (find : List Char → Php.Interpreter) {keep : KeepSet}
    (kept : KeepSet.compile s.keep = .ok keep) : engine find s = .ok ⟨keep, delegate find s⟩ := by
  rw [engine, kept]

theorem sourcesIff (set : ExcludeSet) (target : List Char) :
    (∃ found, sources root set target = .ok found) ↔ root.find? target ≠ none := by
  rw [sources, Walk.select, FileTree.find?]
  cases root.locate? target with
  | none => simp
  | some place =>
    simp only [Option.bind_eq_bind, Option.bind_some]
    cases root.at? place with
    | none => simp
    | some tree =>
      cases tree with
      | directory entries => simp
      | file content executable =>
        simp only [Walk.single]
        cases set.excludes ((Path.fileName? target).getD []) <;>
          cases Path.family? target <;> simp

def finished (find : List Char → Php.Interpreter) (o : CommandLine.Strip) (s : Settings)
    (found : List Source) (log : String) (reports : List FileReport) (tree : FileTree) :
    Completion where
  output := String.join (reports.map (FileReport.view o.dryRun o.diff)) ++
    countLine (reports.countP FileReport.isChanged)
  errors := log ++ emptyNotice found o.target ++
    interpreterWarning find s (reports.flatMap FileReport.requests) ++
    String.join (reports.map FileReport.warning)
  success := true
  tree := tree

theorem stripFinished [Pattern.Dialect] [Settings.Format]
    (valid : settings root o.engine o.exclude o.whitespace = .ok s) (rules : excludeSet s = .ok set)
    (made : engine find s = .ok e) (there : sources root set o.target = .ok (found, log)) :
    strip find root o = .ok (finished find o s found log (found.map (stripFile e s.policy))
      (if o.dryRun then root else writeAll root (found.map (stripFile e s.policy)))) := by
  unfold strip
  rw [valid]
  simp only [bind, Except.bind, rules, made, there]
  rfl

theorem stripIff [Pattern.Dialect] [Settings.Format] : (∃ done, strip find root o = .ok done) ↔
    (∃ s, settings root o.engine o.exclude o.whitespace = .ok s ∧ ∃ set, excludeSet s = .ok set) ∧
      root.find? o.target ≠ none := by
  constructor
  · rintro ⟨done, run⟩
    unfold strip at run
    cases valid : settings root o.engine o.exclude o.whitespace with
    | error failure => rw [valid] at run; cases run
    | ok s =>
      simp only [valid, bind, Except.bind] at run
      cases rules : excludeSet s with
      | error failure => rw [rules] at run; cases run
      | ok set =>
        simp only [rules] at run
        cases made : engine find s with
        | error failure => rw [made] at run; cases run
        | ok e =>
          simp only [made] at run
          cases there : sources root set o.target with
          | error failure => rw [there] at run; cases run
          | ok found => exact ⟨⟨s, rfl, set, rules⟩, (sourcesIff set o.target).mp ⟨found, there⟩⟩
  · rintro ⟨⟨s, valid, set, rules⟩, present⟩
    obtain ⟨base, -, -, accepted⟩ := settingsIff.mp valid
    obtain ⟨keep, kept⟩ := keepCompiles accepted
    obtain ⟨⟨found, log⟩, there⟩ := (sourcesIff set o.target).mpr present
    exact ⟨_, stripFinished valid rules (engineMade find kept) there⟩

end

end CommentStrip.Run
