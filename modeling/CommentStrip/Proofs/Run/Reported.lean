import CommentStrip.Proofs.Run.InPlace

/-! A run changes what it reports. The files that change are announced in the order of the walk
and counted; a dry run says of the same files that they would change. -/
namespace CommentStrip
open Text

def Source.announced (e : Engine) (policy : Whitespace.Policy) (diff : Bool) (mark : String)
    (source : Source) : String :=
  let before := source.text?.getD []
  mark ++ String.ofList source.path ++ "\n" ++
    (if diff then
      Diff.view false source.relative before (policy.apply (e.strip source.family before).text)
    else "")

def Source.changes (e : Engine) (policy : Whitespace.Policy) (source : Source) : Bool :=
  decide (source.rewritten e policy ≠ source.content)

theorem sublistFilter {α : Type} [DecidableEq α] {part whole : List α} (sub : part.Sublist whole)
    (once : whole.Nodup) : whole.filter (fun a => decide (a ∈ part)) = part := by
  induction sub with
  | slnil => rfl
  | @cons part whole a sub ih =>
    obtain ⟨fresh, once⟩ := List.nodup_cons.mp once
    have outside : a ∉ part := fun listed => fresh (sub.subset listed)
    rw [List.filter_cons_of_neg (by simpa using outside), ih once]
  | @cons_cons part whole a sub ih =>
    obtain ⟨fresh, once⟩ := List.nodup_cons.mp once
    rw [List.filter_cons_of_pos (by simp)]
    have same : whole.filter (fun b => decide (b ∈ a :: part)) =
        whole.filter fun b => decide (b ∈ part) := by
      refine List.filter_congr fun b listed => ?_
      have other : b ≠ a := fun same => fresh (same ▸ listed)
      simp [other]
    rw [same, ih once]

namespace Run
variable {e : Engine} {policy : Whitespace.Policy} {found : List Source} {root : FileTree}

def changeMark (dryRun : Bool) : String := if dryRun then "[DRY] Would update: " else "Updated: "

theorem viewChanged (dryRun diff : Bool) (source : Source) :
    (stripFile e policy source).view dryRun diff =
      if source.changes e policy then source.announced e policy diff (changeMark dryRun)
      else "" := by
  have reported : (stripFile e policy source).isChanged = source.changes e policy := changedIff
  rw [← reported]
  unfold stripFile FileReport.isChanged FileReport.view Source.announced
  cases source.text? with
  | none => rfl
  | some before =>
    by_cases same : policy.apply (e.strip source.family before).text = before
    · simp [same]
    · simp [same, changeLine, Console.line, Console.Style.paint, changeMark]

theorem viewsChanged (dryRun diff : Bool) (found : List Source) :
    String.join ((found.map (stripFile e policy)).map (FileReport.view dryRun diff)) =
      String.join ((found.filter (Source.changes e policy)).map
        (Source.announced e policy diff (changeMark dryRun))) := by
  induction found with
  | nil => rfl
  | cons source rest ih =>
    rw [List.map_cons, List.map_cons, String.join_cons, ih, viewChanged]
    cases changes : source.changes e policy <;> simp [changes, String.join_cons]

theorem countChanged (found : List Source) :
    (found.map (stripFile e policy)).countP FileReport.isChanged =
      (found.filter (Source.changes e policy)).length := by
  rw [List.countP_map, List.countP_eq_length_filter]
  congr 1
  exact List.filter_congr fun source _ => changedIff

theorem changesWritten (sound : root.Sound) {set : ExcludeSet} {target : List Char}
    (selected : Walk.select root set target = .sources found) :
    (root.changes (writeAll root (found.map (stripFile e policy)))).map Prod.fst =
      (found.filter (Source.changes e policy)).map Source.place := by
  have holds := selectedHolds sound selected
  have listed : ((found.filter (Source.changes e policy)).map Source.place).Sublist
      (root.files.map Prod.fst) := by
    have files := (Walk.selectedFiles selected).map Prod.fst
    rw [List.map_map] at files
    exact (List.filter_sublist.map Source.place).trans files
  rw [FileTree.changesPlaces root (writeAllSound sound _), writeAllPlaces,
    ← sublistFilter listed (FileTree.filesOnce sound)]
  refine List.filter_congr fun place _ => decide_eq_decide.mpr ?_
  have differs {source : Source} (among : source ∈ found) :
      root.read? source.place ≠
          (writeAll root (found.map (stripFile e policy))).read? source.place ↔
        source.changes e policy = true := by
    rw [holds.there source among, writeAllHere holds among, Source.changes, decide_eq_true_iff,
      ne_comm, ne_eq, Option.some.injEq]
  constructor
  · intro other
    obtain ⟨source, among, rfl⟩ : ∃ source ∈ found, source.place = place := by
      refine Classical.byContradiction fun none => other ?_
      exact (writeAllElsewhere holds fun source among same => none ⟨source, among, same⟩).symm
    exact List.mem_map_of_mem (List.mem_filter.mpr ⟨among, (differs among).mp other⟩)
  · intro inside
    obtain ⟨source, changed, rfl⟩ := List.mem_map.mp inside
    obtain ⟨among, changes⟩ := List.mem_filter.mp changed
    exact (differs among).mpr changes

structure Reported (root : FileTree) (e : Engine) (policy : Whitespace.Policy) (diff : Bool)
    (found changed : List Source) (done dry : Completion) : Prop where
  named : ∀ source ∈ found, root.locate? source.path = some source.place ∧
    root.read? source.place = some source.content
  rewritten : ∀ source ∈ found, ∀ text, Utf8.decode source.content = .ok text →
    done.tree.read? source.place =
      some (Utf8.encode (policy.apply (e.strip source.family text).text))
  others : ∀ place, (∀ source ∈ found, source.place = place →
    ∃ fault, Utf8.decode source.content = .error fault) → done.tree.read? place = root.read? place
  inOrder : changed.Sublist found
  differing : (root.changes done.tree).map Prod.fst = changed.map Source.place
  output : done.output = String.join (changed.map (Source.announced e policy diff "Updated: ")) ++
    ("Done. Files changed: " ++ toString changed.length ++ "\n")
  dryTree : dry.tree = root
  dryOutput : dry.output =
    String.join (changed.map (Source.announced e policy diff "[DRY] Would update: ")) ++
      ("Done. Files changed: " ++ toString changed.length ++ "\n")

theorem finishedOutput (find : List Char → Php.Interpreter) (o : CommandLine.Strip) (s : Settings)
    (found : List Source) (log : String) (tree : FileTree) :
    (finished find o s found log (found.map (stripFile e policy)) tree).output =
      String.join ((found.filter (Source.changes e policy)).map
        (Source.announced e policy o.diff (changeMark o.dryRun))) ++
        ("Done. Files changed: " ++ toString (found.filter (Source.changes e policy)).length ++
          "\n") := by
  rw [finished, viewsChanged, countChanged]
  rfl

theorem reported (sound : root.Sound) {set : ExcludeSet} {target : List Char}
    (selected : Walk.select root set target = .sources found)
    (find : List Char → Php.Interpreter) (o : CommandLine.Strip) (s : Settings) (log : String) :
    Reported root e policy o.diff found (found.filter (Source.changes e policy))
      (finished find { o with dryRun := false } s found log (found.map (stripFile e policy))
        (writeAll root (found.map (stripFile e policy))))
      (finished find { o with dryRun := true } s found log (found.map (stripFile e policy))
        root) := by
  have holds := selectedHolds sound selected
  refine ⟨fun source among => ⟨Walk.selectedNamed sound selected source among,
    holds.there source among⟩, fun source among text read => ?_, fun place spoiled => ?_,
    List.filter_sublist, changesWritten sound selected, finishedOutput .., rfl, finishedOutput ..⟩
  · show (writeAll root _).read? source.place = _
    rw [writeAllHere holds among, Source.rewritten, textIff.mpr read]
  · by_cases among : ∃ source ∈ found, source.place = place
    · obtain ⟨source, among, rfl⟩ := among
      obtain ⟨fault, spoiled⟩ := spoiled source among rfl
      have untold : source.text? = none := by rw [Source.text?, spoiled]; rfl
      show (writeAll root _).read? source.place = _
      rw [writeAllHere holds among, Source.rewritten, untold, holds.there source among]
    · exact writeAllElsewhere holds fun source inside same => among ⟨source, inside, same⟩

theorem noDelegate [Pattern.Dialect] [Settings.Format] {flags : CommandLine.EngineFlags}
    (off : flags.noPhp = true) {exclude : CommandLine.ExcludeFlags}
    {whitespace : CommandLine.WhitespaceFlags} {s : Settings}
    (valid : settings root flags exclude whitespace = .ok s)
    (find : List Char → Php.Interpreter) : delegate find s = Php.noDelegate := by
  obtain ⟨base, -, rfl, -⟩ := settingsIff.mp valid
  refine if_neg (Bool.eq_false_iff.mp ?_)
  simp [Settings.phpEnabled, Settings.merge, CommandLine.layer, off]

/- Without interpreters a run over a directory comes to its end, and the two runs tell of the
same changes. -/
theorem stripChangesWhatItReports [Pattern.Dialect] [Settings.Format]
    (find : List Char → Php.Interpreter) (sound : root.Sound) {o : CommandLine.Strip}
    {s : Settings} {set : ExcludeSet} {entries : List (List Char × FileTree)}
    (off : o.engine.noPhp = true) (valid : settings root o.engine o.exclude o.whitespace = .ok s)
    (rules : excludeSet s = .ok set) (directory : root.find? o.target = some (.directory entries)) :
    ∃ keep found changed done dry, KeepSet.compile s.keep = .ok keep ∧
      Walk.select root set o.target = .sources found ∧
      strip find root { o with dryRun := false } = .ok done ∧
      (stripInPlace find { o with dryRun := false }).run.run root = (.ok done, done.tree) ∧
      strip find root { o with dryRun := true } = .ok dry ∧
      Reported root (.withoutPhp keep) s.policy o.diff found changed done dry := by
  obtain ⟨base, -, -, accepted⟩ := settingsIff.mp valid
  obtain ⟨keep, kept⟩ := keepCompiles accepted
  have made := engineMade find kept
  rw [noDelegate off valid find] at made
  obtain ⟨found, selected⟩ : ∃ found, Walk.select root set o.target = .sources found := by
    obtain ⟨place, located, there⟩ := Option.bind_eq_some_iff.mp directory
    refine ⟨Walk.sourcesAmong set ⟨o.target, [], place⟩ entries, ?_⟩
    rw [Walk.select, located]
    simp only [there]
  have there : sources root set o.target = .ok (found, "") := by rw [sources, selected]
  have done := stripFinished (o := { o with dryRun := false }) valid rules made there
  have dry := stripFinished (o := { o with dryRun := true }) valid rules made there
  exact ⟨keep, found, _, _, _, kept, selected, done, inPlaceFinishes sound done, dry,
    reported sound selected find o s ""⟩

theorem stripChangesWhatItReportsComment :
    let root : FileTree := .directory
      [("a.py".toList, .file [120, 35, 121, 10] false), ("b.css".toList, .file [255] false)]
    let o : CommandLine.Strip := ⟨['.'], false, false, ⟨none, [], true, none, none⟩, .none, .none⟩
    root.Sound ∧ ∃ s set keep found changed done dry,
      settings root o.engine o.exclude o.whitespace = .ok s ∧ excludeSet s = .ok set ∧
      KeepSet.compile s.keep = .ok keep ∧
      strip (fun _ => .missing) root { o with dryRun := true } = .ok dry ∧
      Reported root (.withoutPhp keep) s.policy false found changed done dry ∧
      done.output = "Updated: ./a.py\nDone. Files changed: 1\n" := by
  intro root o
  have sound : root.Sound := by
    refine .directory (by decide +kernel) (by unfold FileTree.IsStep; decide +kernel) ?_
    intro entry listed
    rcases List.mem_pair.mp listed with rfl | rfl <;> exact .file _ _
  obtain ⟨set, rules⟩ := builtInRules
  have output : (strip (fun _ => .missing) root { o with dryRun := false }).toOption.map
      Completion.output = some "Updated: ./a.py\nDone. Files changed: 1\n" := by decide +kernel
  obtain ⟨keep, found, changed, done, dry, kept, -, run, -, dryRun, reported⟩ :=
    stripChangesWhatItReports (fun _ => .missing) sound (o := o) rfl (plainSettings root)
      (rules _ rfl rfl) rfl
  rw [run] at output
  exact ⟨sound, _, set, keep, found, changed, done, dry, plainSettings root, rules _ rfl rfl,
    kept, dryRun, reported, Option.some.inj output⟩

end Run
end CommentStrip
