import CommentStrip.Proofs.Run.InPlace
import CommentStrip.Proofs.Settings.Named
import CommentStrip.Run.Command

/-! Runs that do not begin. A run that strips fails exactly when some part of its setup is bad;
then nothing is written, and flags that are no patterns are all named. Which sources are patterns
is up to the dialect, and which files hold settings to the format. -/
namespace CommentStrip.Run
open Pattern (Unusable)

section
variable [Pattern.Dialect]

inductive BadSettings (s : Settings) : Prop
  | keep {source} (listed : source ∈ s.keep) (unusable : Unusable source)
  | excludeRegex {source} (listed : source ∈ s.excludeRegexes) (unusable : Unusable source)
  | exclude {glob} (listed : glob ∈ s.excludes)
      (unusable : Unusable (String.ofList (Glob.expression glob.toList)))
  | blankExclude {glob} (listed : glob ∈ s.excludes) (blank : Settings.isBlankText glob = true)
  | timeout (zero : s.php.timeout = some 0)
  | binary {name} (set : s.php.binary = some name) (blank : Settings.isBlankText name = true)

section
variable [Settings.Format]

inductive BadFile (root : FileTree) (path : List Char) : Prop
  | missing (none : (root.find? path).bind FileTree.content? = none)
  | notText {content fault} (there : (root.find? path).bind FileTree.content? = some content)
      (spoiled : Text.Utf8.decode content = .error fault)
  | unparsable {content text} (there : (root.find? path).bind FileTree.content? = some content)
      (read : Text.Utf8.decode content = .ok text) (none : Settings.Format.read text = none)
  | invalid {content text s} (there : (root.find? path).bind FileTree.content? = some content)
      (read : Text.Utf8.decode content = .ok text) (some : Settings.Format.read text = some s)
      (refused : ¬s.Accepted)

inductive BadSetup (root : FileTree) (o : CommandLine.Strip) : Prop
  | file {path} (named : o.engine.config = some path) (bad : BadFile root path)
  | settings {base} (layers : baseSettings root o.engine = .ok base)
      (bad : BadSettings (base.merge (CommandLine.layer o.engine o.exclude o.whitespace)))
  | target (missing : root.find? o.target = none)

theorem badFileIff (root : FileTree) (path : List Char) :
    BadFile root path ↔ ∃ error, Settings.load root path = .error error := by
  constructor
  · rintro (none | ⟨there, spoiled⟩ | ⟨there, read, none⟩ | ⟨there, read, some, refused⟩)
    · exact ⟨_, by rw [Settings.load, none]⟩
    · exact ⟨_, by rw [Settings.load, there]; simp only [spoiled]; rfl⟩
    · exact ⟨_, by rw [Settings.load, there]; simp only [read, none]; rfl⟩
    · rw [← Settings.acceptedIff] at refused
      exact ⟨_, by rw [Settings.load, there]; simp only [read, some, if_neg refused]; rfl⟩
  · rintro ⟨error, failed⟩
    rw [Settings.load] at failed
    split at failed
    · rename_i none
      exact .missing none
    · rename_i content there
      split at failed
      · rename_i spoiled
        exact .notText there spoiled
      · rename_i text read
        split at failed
        · rename_i none
          exact .unparsable there read none
        · rename_i s some
          split at failed
          · cases failed
          · rename_i refused
            exact .invalid there read some (by rwa [← Settings.acceptedIff])

end

theorem badSettingsIff (s : Settings) :
    ¬BadSettings s ↔ s.isValid = true ∧ ∃ set, excludeSet s = .ok set := by
  rw [Settings.acceptedIff, excludeSetIff]
  constructor
  · intro good
    refine ⟨⟨?_, ?_, ?_, ?_, ?_⟩, ?_, ?_⟩
    · exact fun source listed unusable => good (.keep listed unusable)
    · exact fun source listed unusable => good (.excludeRegex listed unusable)
    · exact fun glob listed => Bool.eq_false_iff.mpr fun blank => good (.blankExclude listed blank)
    · exact fun zero => good (.timeout zero)
    · cases set : s.php.binary with
      | none => rfl
      | some name => exact Bool.eq_false_iff.mpr fun blank => good (.binary set blank)
    · exact fun glob listed unusable => good (.exclude listed unusable)
    · exact fun source listed unusable => good (.excludeRegex listed unusable)
  · rintro ⟨accepted, globs, regexes⟩ bad
    cases bad with
    | keep listed unusable => exact accepted.keep _ listed unusable
    | excludeRegex listed unusable => exact regexes _ listed unusable
    | exclude listed unusable => exact globs _ listed unusable
    | blankExclude listed blank => simp [accepted.excludes _ listed] at blank
    | timeout zero => exact accepted.timeout zero
    | binary set blank => simpa [set, blank] using accepted.binary

section
variable [Settings.Format]

theorem baseIff (root : FileTree) (flags : CommandLine.EngineFlags) :
    (∃ base, baseSettings root flags = .ok base) ↔
      ∀ path, flags.config = some path → ¬BadFile root path := by
  unfold baseSettings
  cases flags.config with
  | none => simp
  | some path =>
    simp only [Option.some.injEq, forall_eq', badFileIff]
    cases Settings.load root path <;> simp

theorem badSetupIff (find : List Char → Php.Interpreter) (root : FileTree) (o : CommandLine.Strip) :
    BadSetup root o ↔ ∃ failure, strip find root o = .error failure := by
  have fails : (∃ failure, strip find root o = .error failure) ↔
      ¬∃ done, strip find root o = .ok done := by
    cases strip find root o <;> simp
  rw [fails, stripIff]
  constructor
  · rintro bad ⟨⟨s, valid, rules⟩, present⟩
    obtain ⟨base, layers, rfl, accepted⟩ := settingsIff.mp valid
    cases bad with
    | file named bad => exact (baseIff root o.engine).mp ⟨base, layers⟩ _ named bad
    | settings layers' bad =>
      cases layers.symm.trans layers'
      exact (badSettingsIff _).mpr ⟨accepted, rules⟩ bad
    | target missing => exact present missing
  · intro bad
    refine Classical.byContradiction fun good => bad ⟨?_, fun missing => good (.target missing)⟩
    obtain ⟨base, layers⟩ := (baseIff root o.engine).mpr fun path named bad => good (.file named bad)
    obtain ⟨accepted, rules⟩ := (badSettingsIff _).mp fun bad => good (.settings layers bad)
    exact ⟨_, settingsIff.mpr ⟨base, layers, rfl, accepted⟩, rules⟩

theorem answerStrip (root : FileTree) (input : List UInt8) {arguments : List (List Char)}
    {verbosity : CommandLine.Verbosity} {o : CommandLine.Strip}
    (parsed : CommandLine.read arguments = .ok ⟨verbosity, .strip o⟩) (failure : Failure) :
    answer root input arguments = .failure failure ↔
      strip (Shell.interpreter root) root o = .error failure := by
  rw [answer, parsed]
  simp only [command]
  cases strip (Shell.interpreter root) root o <;> simp

theorem badFlagsNamed {find : List Char → Php.Interpreter} {root : FileTree}
    {o : CommandLine.Strip} {base : Settings} (layers : baseSettings root o.engine = .ok base)
    {bad : String} (flag : bad ∈ o.engine.keep ∨ bad ∈ o.exclude.excludeRegexes)
    (unusable : Unusable bad) :
    ∃ failure, strip find root o = .error failure ∧
      ∀ source, source ∈ o.engine.keep ∨ source ∈ o.exclude.excludeRegexes →
        Unusable source → Says failure.message source := by
  let s := base.merge (CommandLine.layer o.engine o.exclude o.whitespace)
  have among (source : String)
      (flag : source ∈ o.engine.keep ∨ source ∈ o.exclude.excludeRegexes) :
      source ∈ s.keep ∨ source ∈ s.excludeRegexes :=
    flag.imp (fun listed => Settings.memAppendNew.mpr (.inr listed))
      fun listed => Settings.memAppendNew.mpr (.inr listed)
  have refused : ¬s.isValid = true := by
    rw [Settings.acceptedIff]
    intro accepted
    rcases among bad flag with listed | listed
    · exact accepted.keep bad listed unusable
    · exact accepted.excludeRegexes bad listed unusable
  have failed : settings root o.engine o.exclude o.whitespace =
      .error (.invalidSettings s.problems) := by
    rw [settings, layers]
    exact if_neg refused
  refine ⟨.invalidSettings s.problems, ?_, fun source flag unusable => ?_⟩
  · rw [strip, failed]
    rfl
  · exact Settings.messageNames unusable (among source flag)

/- With a bad setup nothing is done, whatever the dialect of patterns and the format of settings.
Flags that are no patterns are all in the report. -/
theorem badSetupTouchesNothing (root : FileTree) (input : List UInt8) {arguments : List (List Char)}
    {verbosity : CommandLine.Verbosity} {o : CommandLine.Strip}
    (parsed : CommandLine.read arguments = .ok ⟨verbosity, .strip o⟩) :
    (BadSetup root o ↔ ∃ failure, answer root input arguments = .failure failure) ∧
      (∀ failure, answer root input arguments = .failure failure →
        (stripInPlace (Shell.interpreter root) o).run.run root = (.error failure, root)) ∧
      ((∀ path, o.engine.config = some path → ¬BadFile root path) →
        (∃ source ∈ o.engine.keep, Unusable source) →
        (∃ source ∈ o.exclude.excludeRegexes, Unusable source) →
        ∃ failure, answer root input arguments = .failure failure ∧
          ∀ source, source ∈ o.engine.keep ∨ source ∈ o.exclude.excludeRegexes →
            Unusable source → source.toList <:+: failure.message.toList) := by
  refine ⟨?_, fun failure failed => ?_, ?_⟩
  · simp only [answerStrip root input parsed, badSetupIff (Shell.interpreter root)]
  · exact inPlaceFails ((answerStrip root input parsed failure).mp failed)
  · rintro config ⟨bad, listed, unusable⟩ -
    obtain ⟨base, layers⟩ := (baseIff root o.engine).mpr config
    obtain ⟨failure, failed, named⟩ := badFlagsNamed layers (.inl listed) unusable
    exact ⟨failure, (answerStrip root input parsed failure).mpr failed, named⟩

end

end

theorem badSetupTouchesNothingFlags :
    let root : FileTree := .directory [("a.py".toList, .file [35] false)]
    let o : CommandLine.Strip :=
      ⟨"a.py".toList, false, false, ⟨none, ["("], false, none, none⟩, ⟨[], ["["], none⟩, .none⟩
    ∃ failure,
      answer root [] ["strip".toList, "a.py".toList, "--keep-directive=(".toList,
        "--exclude-regex=[".toList] = .failure failure ∧
      (stripInPlace (Shell.interpreter root) o).run.run root = (.error failure, root) ∧
      "(".toList <:+: failure.message.toList ∧ "[".toList <:+: failure.message.toList := by
  intro root o
  have parsed : CommandLine.read ["strip".toList, "a.py".toList, "--keep-directive=(".toList,
      "--exclude-regex=[".toList] = .ok ⟨⟨false, false, false⟩, .strip o⟩ := by decide +kernel
  have parenthesis : Unusable "(" := by decide +kernel
  have bracket : Unusable "[" := by decide +kernel
  obtain ⟨-, untouched, named⟩ := badSetupTouchesNothing root [] parsed
  have plain : ∀ path, o.engine.config = some path → ¬BadFile root path := by
    intro path named
    cases named
  obtain ⟨failure, failed, all⟩ := named plain ⟨_, List.mem_singleton_self _, parenthesis⟩
    ⟨_, List.mem_singleton_self _, bracket⟩
  exact ⟨failure, failed, untouched failure failed,
    all "(" (.inl (List.mem_singleton_self _)) parenthesis,
    all "[" (.inr (List.mem_singleton_self _)) bracket⟩

end CommentStrip.Run
