import CommentStrip.Proofs.Extension
import CommentStrip.Proofs.Run.Rewriting
import CommentStrip.Run.Filter

/-! A filter leaves of a text what a run leaves of a file that holds it. -/
namespace CommentStrip.Run
open Text

section
variable {find : List Char → Php.Interpreter} {root : FileTree} {s : Settings} {set : ExcludeSet}
  {e : Engine} {path name : List Char} {family : Family} {text : List Char} {executable : Bool}

theorem fileSources (there : root.find? path = some (.file (Utf8.encode text) executable))
    (named : Path.fileName? path = some name) (kept : set.excludes name = false)
    (known : Path.family? path = some family) :
    ∃ place, root.locate? path = some place ∧ root.read? place = some (Utf8.encode text) ∧
      sources root set path = .ok ([⟨path, name, place, family, Utf8.encode text⟩], "") := by
  obtain ⟨place, located, stands⟩ := Option.bind_eq_some_iff.mp there
  refine ⟨place, located, by rw [FileTree.read?, stands]; rfl, ?_⟩
  rw [sources, Walk.select, located]
  simp only [stands]
  rw [Walk.single, named]
  simp only [Option.getD_some, kept, known]
  rfl

theorem findWritten (root : FileTree) (reports : List FileReport) {place : Place}
    (located : root.locate? path = some place) :
    ((writeAll root reports).find? path).bind FileTree.content? =
      (writeAll root reports).read? place := by
  rw [FileTree.find?, FileTree.locateAlike (writeAllAlike root reports), located]
  rfl

theorem stripTextMade [Pattern.Dialect] (made : engine find s = .ok e) (family : Family) (text : List Char) :
    ∃ outcome, stripText find s family text = .ok outcome ∧
      outcome.text = s.policy.apply (e.strip family text).text := by
  rw [stripText, made]
  exact ⟨_, rfl, rfl⟩

end

/- The extension that a filter is given and the one that the file has may be written in different
ways. -/
theorem filterAgrees [Pattern.Dialect] [Settings.Format] (find : List Char → Php.Interpreter)
    {root : FileTree} {flags : CommandLine.EngineFlags} {whitespace : CommandLine.WhitespaceFlags}
    {s : Settings} {set : ExcludeSet} (valid : settings root flags .none whitespace = .ok s)
    (rules : excludeSet s = .ok set) {extension : String} {family : Family}
    (listed : (extension, family) ∈ Family.table) {given written : List Char}
    (asked : Spelled extension given) (spelled : Spelled extension written)
    {path stem : List Char} (present : stem ≠ []) (dotless : '.' ∉ stem)
    (named : Path.fileName? path = some (stem ++ '.' :: written))
    (kept : set.excludes (stem ++ '.' :: written) = false) {text : List Char} {executable : Bool}
    (there : root.find? path = some (.file (Utf8.encode text) executable)) (diff : Bool)
    (jobs : Option Nat) :
    ∃ filtered stripped,
      filter find root ⟨given, flags, whitespace⟩ (Utf8.encode text) = .ok filtered ∧
      strip find root ⟨path, false, diff, flags, ⟨[], [], jobs⟩, whitespace⟩ = .ok stripped ∧
      (stripped.tree.find? path).bind FileTree.content? =
        some (Utf8.encode filtered.output.toList) := by
  obtain ⟨base, -, -, accepted⟩ := settingsIff.mp valid
  obtain ⟨keep, compiled⟩ := keepCompiles accepted
  have made := engineMade find compiled
  obtain ⟨outcome, stripped, left⟩ := stripTextMade made family text
  have filtered : filter find root ⟨given, flags, whitespace⟩ (Utf8.encode text) =
      .ok ⟨String.ofList outcome.text, interpreterWarning find s outcome.requests, true, root⟩ := by
    rw [filter, Utf8.decodeEncode]
    simp only [valid, stripByExtension, familySpelled listed asked, stripped, bind, Except.bind]
    rfl
  have known := Path.familySpelled listed spelled present dotless named
  obtain ⟨place, located, read, found⟩ := fileSources there named kept known
  have holds : Holds root [⟨path, stem ++ '.' :: written, place, family, Utf8.encode text⟩] :=
    ⟨List.nodup_singleton _, fun source among => by rw [List.mem_singleton.mp among, read]⟩
  refine ⟨_, _, filtered, stripFinished (o := ⟨path, false, diff, flags, ⟨[], [], jobs⟩,
    whitespace⟩) valid rules made found, ?_⟩
  show ((writeAll root _).find? path).bind FileTree.content? = _
  rw [findWritten root _ located, writeAllHere holds (List.mem_singleton_self _), Source.rewritten,
    textIff.mpr (Utf8.decodeEncode text), String.toList_ofList, left]

theorem filterAgreesPython :
    let root : FileTree := .directory
      [("f..PY".toList, .file (Utf8.encode "x = 1 # é\n".toList) false)]
    let flags : CommandLine.EngineFlags := ⟨none, [], true, none, none⟩
    ∃ filtered stripped,
      filter (fun _ => .missing) root ⟨".PY".toList, flags, .none⟩
        (Utf8.encode "x = 1 # é\n".toList) = .ok filtered ∧
      strip (fun _ => .missing) root ⟨"f..PY".toList, false, false, flags, .none, .none⟩ =
        .ok stripped ∧
      (stripped.tree.find? "f..PY".toList).bind FileTree.content? =
        some (Utf8.encode filtered.output.toList) ∧
      filtered.output = "x = 1\n" := by
  intro root flags
  obtain ⟨set, rules⟩ := builtInRules
  have kept : set.excludes "f..PY".toList = false := by
    have free : (excludeSet Settings.builtIn).toOption.map
        (fun set => set.excludes "f..PY".toList) = some false := by decide +kernel
    rw [rules _ rfl rfl] at free
    exact Option.some.inj free
  have spelled : Spelled "py" ".PY".toList := .dots 1 ['P', 'Y'] (by decide)
  have output : (filter (fun _ => .missing) root ⟨".PY".toList, flags, .none⟩
      (Utf8.encode "x = 1 # é\n".toList)).toOption.map Completion.output = some "x = 1\n" := by
    decide +kernel
  have listed : ("py", Family.python) ∈ Family.table := List.mem_cons_self
  have stem : ['f'] ≠ [] := List.cons_ne_nil _ _
  have there : root.find? "f..PY".toList =
      some (.file (Utf8.encode "x = 1 # é\n".toList) false) := rfl
  obtain ⟨filtered, stripped, left, run, agree⟩ := filterAgrees (fun _ => .missing)
    (plainSettings root) (rules _ rfl rfl) listed spelled spelled stem (by decide) (by decide) kept
    there false none
  rw [left] at output
  exact ⟨filtered, stripped, left, run, agree, Option.some.inj output⟩

end CommentStrip.Run
