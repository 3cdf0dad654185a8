import CommentStrip.Proofs.Counting
import CommentStrip.Proofs.Run.Reported
import CommentStrip.Run.Scan
import Mathlib.Algebra.GroupWithZero.Nat

/-! What a scan reports. Every file that the walk selects is an entry of the report or among those
that were skipped, the totals are the sums over the entries, and the gate at zero opens exactly when
stripping would leave all texts as they are. Nothing is written. -/
namespace CommentStrip
open Text

def Source.entry (e : Engine) (source : Source) : Option FileScan :=
  source.text?.map fun text =>
    ⟨source.relative, source.family.name, (e.strip source.family text).tally⟩

def Source.isText (source : Source) : Bool := source.text?.isSome

theorem Engine.stripCounted (e : Engine) (family : Family) (text : List Char) :
    (e.strip family text).tally = e.analyze family text := by
  have tally := stripTally e (Php.memoryless e.delegate) family text ()
  rwa [stripMemoryless] at tally

namespace Run
variable {e : Engine} {found : List Source} {report : Report} {source : Source}

/- The report tells of each of the sources once, in their order. -/
structure Accounts (e : Engine) (found : List Source) (report : Report) : Prop where
  files : report.files = found.filterMap (Source.entry e)
  skipped : report.skipped = (found.filter fun source => !source.isText).map Source.relative
  each : report.scanned + report.skipped.length = found.length
  removable : report.total.removed = (report.files.map (·.tally.removed)).sum
  kept : report.total.kept = (report.files.map (·.tally.kept)).sum

theorem Accounts.step (accounts : Accounts e found report) (source : Source) :
    Accounts e (found ++ [source]) (scanFile e report source) := by
  obtain ⟨files, skipped, each, removable, kept⟩ := accounts
  unfold scanFile
  cases read : source.text? with
  | none =>
    constructor
    · simp [Report.skip, Source.entry, read, files]
    · simp [Report.skip, Source.isText, read, skipped]
    · simp only [Report.skip, List.length_append, List.length_singleton]
      omega
    · exact removable
    · exact kept
  | some text =>
    constructor
    · simp [Report.add, Source.entry, read, files, Engine.stripCounted]
    · simp [Report.add, Source.isText, read, skipped]
    · simp only [Report.add, List.length_append, List.length_singleton]
      omega
    · simp [Report.add, Tally.merge, removable]
    · simp [Report.add, Tally.merge, kept]

theorem Accounts.run (accounts : Accounts e found report) (more : List Source) :
    Accounts e (found ++ more) (more.foldl (scanFile e) report) := by
  induction more generalizing found report with
  | nil => rwa [List.append_nil]
  | cons source rest ih =>
    rw [List.append_cons]
    exact ih (accounts.step source)

theorem scanAccounts (e : Engine) (found : List Source) : Accounts e found (scanAll e found) := by
  have start : Accounts e [] .empty := ⟨rfl, rfl, rfl, rfl, rfl⟩
  exact start.run found

theorem nothingRemovable (accounts : Accounts e found report) (fails : Php.Fails e.delegate) :
    report.total.removed = 0 ↔ ∀ source ∈ found, ∀ text, Utf8.decode source.content = .ok text →
      (e.strip source.family text).text = text := by
  rw [accounts.removable, List.sum_eq_zero_iff_forall_eq_nat, List.forall_mem_map, accounts.files]
  constructor
  · intro none source among text read
    have entry : source.entry e = some
        ⟨source.relative, source.family.name, (e.strip source.family text).tally⟩ := by
      rw [Source.entry, textIff.mpr read]
      rfl
    have removed := none _ (List.mem_filterMap.mpr ⟨source, among, entry⟩)
    exact (Engine.stripRemoval e fails source.family text).same.mpr removed
  · intro stays file listed
    obtain ⟨source, among, entry⟩ := List.mem_filterMap.mp listed
    obtain ⟨text, read, rfl⟩ := Option.map_eq_some_iff.mp entry
    exact (Engine.stripRemoval e fails source.family text).same.mp
      (stays source among text (textIff.mp read))

/- What a scan prints of a report: a record in JSON, or lines for the files with comments between
a heading and the total. -/
structure Printed (json : Bool) (report : Report) (output : String) : Prop where
  record : json = true → output = Json.pretty 0 (.object
    [("files", .array (report.files.map fun file => .object
        [("path", .text file.path), ("grammar", .text file.grammar.toList),
          ("comments_removed", .number file.tally.removed),
          ("comments_kept", .number file.tally.kept)])),
      ("files_scanned", .number report.scanned), ("skipped", .array (report.skipped.map .text)),
      ("total_removable", .number report.total.removed),
      ("total_kept", .number report.total.kept)]) ++ "\n"
  lines : json = false → output = "Comment scan\n" ++
    String.join ((report.files.filter fun file => file.tally.total ≠ 0).map fun file =>
      "  " ++ String.ofList file.path ++ " (" ++ file.grammar ++ "): " ++
        toString file.tally.removed ++ " removable, " ++ toString file.tally.kept ++ " kept" ++
        "\n") ++
    ("Total: " ++ toString report.total.removed ++ " removable comment(s), " ++
      toString report.total.kept ++ " kept, in " ++ toString report.scanned ++ " file(s)." ++ "\n")

def counted (o : CommandLine.Scan) (found : List Source) (log : String) (report : Report)
    (tree : FileTree) : Completion where
  output := if o.json then Console.line report.prettyJson else report.view false
  errors := log ++ String.join (found.map skipWarning) ++ thresholdError report o.threshold
  success := !report.exceeds o.threshold
  tree := tree

theorem countedPrinted (o : CommandLine.Scan) (found : List Source) (log : String)
    (report : Report) (tree : FileTree) :
    Printed o.json report (counted o found log report tree).output := by
  rw [counted]
  exact ⟨fun json => if_pos json, fun plain => if_neg (Bool.eq_false_iff.mp plain)⟩

def scanSource (engine : Engine) (report : Report) (source : Source) : InPlace Report := do
  let tree ← get
  return scanFile engine report { source with content := (tree.read? source.place).getD [] }

def scanInPlace [Pattern.Dialect] [Settings.Format] (find : List Char → Php.Interpreter)
    (o : CommandLine.Scan) : InPlace Completion := do
  let s ← settings (← get) o.engine o.exclude .none
  let set ← excludeSet s
  let engine ← engine find s
  let (found, log) ← sources (← get) set o.target
  let report ← found.foldlM (scanSource engine) .empty
  return counted o found log report (← get)

section
variable {tree : FileTree}

theorem scanSourcesRun (holds : Holds tree found) (report : Report) :
    (found.foldlM (scanSource e) report).run.run tree =
      (.ok (found.foldl (scanFile e) report), tree) := by
  induction found generalizing report with
  | nil => rfl
  | cons source rest ih =>
    have taken : (scanSource e report source).run.run tree =
        (.ok (scanFile e report source), tree) := by
      rw [scanSource, runGet, holds.head]
      rfl
    have later : Holds tree rest :=
      ⟨(List.nodup_cons.mp holds.once).2, fun other listed =>
        holds.there other (List.mem_cons_of_mem _ listed)⟩
    rw [List.foldlM_cons, runBind taken, ih later, List.foldl_cons]

theorem scanInPlaceRun [Pattern.Dialect] [Settings.Format] (find : List Char → Php.Interpreter)
    {root : FileTree} (sound : root.Sound) (o : CommandLine.Scan) :
    (scanInPlace find o).run.run root = (scan find root o, root) := by
  rw [scanInPlace, runGet, scan]
  cases settings root o.engine o.exclude .none with
  | error failure => rfl
  | ok s =>
    rw [runOk, okBind]
    cases excludeSet s with
    | error failure => rfl
    | ok set =>
      rw [runOk, okBind]
      cases engine find s with
      | error failure => rfl
      | ok e =>
        rw [runOk, okBind, runGet]
        cases there : sources root set o.target with
        | error failure => rfl
        | ok answer =>
          obtain ⟨found, log⟩ := answer
          rw [runOk]
          simp only
          rw [runBind (scanSourcesRun (sourcesHold sound there) _), runGet]
          rfl

end

theorem scanCounted [Pattern.Dialect] [Settings.Format] {find : List Char → Php.Interpreter}
    {root : FileTree} {o : CommandLine.Scan} {s : Settings} {set : ExcludeSet} {log : String}
    (valid : settings root o.engine o.exclude .none = .ok s) (rules : excludeSet s = .ok set)
    (made : engine find s = .ok e) (there : sources root set o.target = .ok (found, log)) :
    scan find root o = .ok (counted o found log (scanAll e found) root) := by
  unfold scan
  rw [valid]
  simp only [bind, Except.bind, rules, made, there]
  rfl

theorem gateIff (o : CommandLine.Scan) (found : List Source) (log : String) (report : Report)
    (tree : FileTree) : (counted o found log report tree).success = true ↔
      ∀ limit, o.threshold = some limit → report.total.removed ≤ limit := by
  rw [counted, Report.exceeds]
  cases o.threshold <;> simp

/- A scan without interpreters tells of every file that the walk selects, once. Its gate at zero
opens exactly when stripping changes no text, and the tree stays as it is, whatever becomes of a
scan. -/
theorem scanAccountsForAll [Pattern.Dialect] [Settings.Format] (find : List Char → Php.Interpreter)
    {root : FileTree} (sound : root.Sound) {o : CommandLine.Scan} {s : Settings} {set : ExcludeSet}
    {entries : List (List Char × FileTree)} (off : o.engine.noPhp = true)
    (valid : settings root o.engine o.exclude .none = .ok s) (rules : excludeSet s = .ok set)
    (directory : root.find? o.target = some (.directory entries)) :
    (∃ keep found report done, KeepSet.compile s.keep = .ok keep ∧
      Walk.select root set o.target = .sources found ∧
      scan find root o = .ok done ∧
      done.output = (if o.json then Console.line report.prettyJson else report.view false) ∧
      Printed o.json report done.output ∧ Accounts (.withoutPhp keep) found report ∧
      (done.success = true ↔ ∀ limit, o.threshold = some limit → report.total.removed ≤ limit) ∧
      (o.threshold = some 0 → (done.success = true ↔ ∀ source ∈ found, ∀ text,
        Utf8.decode source.content = .ok text →
          ((Engine.withoutPhp keep).strip source.family text).text = text)) ∧
      done.tree = root) ∧
    ∀ any, (scanInPlace find any).run.run root = (scan find root any, root) := by
  refine ⟨?_, scanInPlaceRun find sound⟩
  obtain ⟨base, -, -, accepted⟩ := settingsIff.mp valid
  obtain ⟨keep, kept⟩ := keepCompiles accepted
  have made := engineMade find kept
  rw [noDelegate off valid find] at made
  obtain ⟨place, located, there⟩ := Option.bind_eq_some_iff.mp directory
  obtain ⟨found, selected⟩ : ∃ found, Walk.select root set o.target = .sources found :=
    ⟨_, Walk.selectDirectory set located there⟩
  have told : sources root set o.target = .ok (found, "") := by rw [sources, selected]
  have accounts := scanAccounts (.withoutPhp keep) found
  have gate := gateIff o found "" (scanAll (.withoutPhp keep) found) root
  refine ⟨keep, found, _, _, kept, selected, scanCounted valid rules made told, rfl,
    countedPrinted .., accounts, gate, fun zero => ?_, rfl⟩
  refine gate.trans ?_
  rw [zero, ← nothingRemovable accounts Php.noDelegateFails]
  simp

theorem scanAccountsForComment :
    let root : FileTree := .directory
      [("a.py".toList, .file [120, 35, 121, 10] false), ("b.css".toList, .file [255] false)]
    let o : CommandLine.Scan := ⟨['.'], false, some 0, ⟨none, [], true, none, none⟩, .none⟩
    root.Sound ∧ ∃ s set keep found report done,
      settings root o.engine o.exclude .none = .ok s ∧ excludeSet s = .ok set ∧
      KeepSet.compile s.keep = .ok keep ∧ Walk.select root set o.target = .sources found ∧
      scan (fun _ => .missing) root o = .ok done ∧ Accounts (.withoutPhp keep) found report ∧
      done.success = false ∧ done.output = "Comment scan\n  a.py (python): 1 removable, 0 kept\n" ++
        "Total: 1 removable comment(s), 0 kept, in 1 file(s).\n" ∧
      (scanInPlace (fun _ => .missing) o).run.run root = (.ok done, root) := by
  intro root o
  have sound : root.Sound := by
    refine .directory (by decide +kernel) (by unfold FileTree.IsStep; decide +kernel) ?_
    intro entry listed
    rcases List.mem_pair.mp listed with rfl | rfl <;> exact .file _ _
  obtain ⟨set, rules⟩ := builtInRules
  have runs : (scan (fun _ => .missing) root o).toOption.map (fun done =>
      (done.success, done.output)) = some (false, "Comment scan\n" ++
        "  a.py (python): 1 removable, 0 kept\n" ++
        "Total: 1 removable comment(s), 0 kept, in 1 file(s).\n") := by decide +kernel
  obtain ⟨⟨keep, found, report, done, kept, selected, run, -, -, accounts, -⟩, inPlace⟩ :=
    scanAccountsForAll (fun _ => .missing) sound (o := o) rfl (plainSettings root)
      (rules _ rfl rfl) rfl
  have untouched := inPlace o
  rw [run] at runs untouched
  obtain ⟨closed, output⟩ := Prod.mk.inj (Option.some.inj runs)
  exact ⟨sound, _, set, keep, found, report, done, plainSettings root, rules _ rfl rfl, kept,
    selected, run, accounts, closed, output, untouched⟩

end Run
end CommentStrip
