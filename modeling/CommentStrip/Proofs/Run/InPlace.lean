import CommentStrip.Proofs.Run.Rewriting

/-! The run as it goes through the tree. What was written before a failure would stay written;
a file is read when its turn comes and written before the next one. -/
namespace CommentStrip.Run

abbrev InPlace := ExceptT Failure (StateM FileTree)

def stripSource (engine : Engine) (policy : Whitespace.Policy) (dryRun : Bool) (source : Source) :
    InPlace FileReport := do
  let tree ← get
  let report :=
    stripFile engine policy { source with content := (tree.read? source.place).getD [] }
  unless dryRun do set (writeBack tree report)
  return report

def stripInPlace [Pattern.Dialect] [Settings.Format] (find : List Char → Php.Interpreter)
    (o : CommandLine.Strip) : InPlace Completion := do
  let s ← settings (← get) o.engine o.exclude o.whitespace
  let set ← excludeSet s
  let engine ← engine find s
  let (found, log) ← sources (← get) set o.target
  let reports ← found.mapM (stripSource engine s.policy o.dryRun)
  return finished find o s found log reports (← get)

section
variable {α β : Type} {engine : Engine} {policy : Whitespace.Policy} {dryRun : Bool}
  {tree : FileTree}

theorem runGet (next : FileTree → InPlace α) (tree : FileTree) :
    (get >>= next).run.run tree = (next tree).run.run tree := rfl

theorem runOk (a : α) (next : α → InPlace β) (tree : FileTree) :
    (liftM (Except.ok a : Except Failure α) >>= next).run.run tree = (next a).run.run tree := rfl

theorem okBind (a : α) (next : α → Except Failure β) : (Except.ok a >>= next) = next a := rfl

theorem runBind {step : InPlace α} {next : α → InPlace β} {a : α} {now : FileTree}
    (taken : step.run.run tree = (.ok a, now)) :
    (step >>= next).run.run tree = (next a).run.run now := by
  show (ExceptT.bindCont next (step.run.run tree).1) (step.run.run tree).2 = _
  rw [taken]
  rfl

def turned (dryRun : Bool) (tree written : FileTree) : FileTree := if dryRun then tree else written

theorem stripSourceRun {source : Source} (there : tree.read? source.place = some source.content) :
    (stripSource engine policy dryRun source).run.run tree =
      (.ok (stripFile engine policy source),
        turned dryRun tree (writeBack tree (stripFile engine policy source))) := by
  rw [stripSource, runGet, there]
  cases dryRun <;> rfl

theorem stripSourcesRun {found : List Source} (holds : Holds tree found) :
    (found.mapM (stripSource engine policy dryRun)).run.run tree =
      (.ok (found.map (stripFile engine policy)),
        turned dryRun tree (writeAll tree (found.map (stripFile engine policy)))) := by
  induction found generalizing tree with
  | nil => cases dryRun <;> rfl
  | cons source rest ih =>
    rw [List.mapM_cons, runBind (stripSourceRun holds.head)]
    cases dryRun with
    | true =>
      have later : Holds tree rest :=
        ⟨(List.nodup_cons.mp holds.once).2, fun other listed =>
          holds.there other (List.mem_cons_of_mem _ listed)⟩
      exact runBind (ih later)
    | false => exact runBind (ih holds.next)

end

section
variable {find : List Char → Php.Interpreter} {root : FileTree} {o : CommandLine.Strip}

theorem sourcesHold (sound : root.Sound) {set : ExcludeSet} {target : List Char}
    {found : List Source} {log : String} (there : sources root set target = .ok (found, log)) :
    Holds root found := by
  unfold sources at there
  split at there
  · rename_i selected
    cases there
    exact selectedHolds sound selected
  · cases there
    exact ⟨List.nodup_nil, fun _ listed => absurd listed List.not_mem_nil⟩
  · cases there

/- The run in place is the run on the whole: all that can fail comes before the first file, and
no file is written twice. -/
theorem stripInPlaceRun [Pattern.Dialect] [Settings.Format] (find : List Char → Php.Interpreter)
    (root : FileTree) (o : CommandLine.Strip) :
    match strip find root o with
    | .ok done => root.Sound → (stripInPlace find o).run.run root = (.ok done, done.tree)
    | .error failure => (stripInPlace find o).run.run root = (.error failure, root) := by
  rw [stripInPlace, runGet, strip]
  cases settings root o.engine o.exclude o.whitespace with
  | error failure => rfl
  | ok s =>
    rw [runOk, okBind]
    cases excludeSet s with
    | error failure => rfl
    | ok set =>
      rw [runOk, okBind]
      cases engine find s with
      | error failure => rfl
      | ok e =>
        rw [runOk, okBind, runGet]
        cases there : sources root set o.target with
        | error failure => rfl
        | ok answer =>
          intro sound
          obtain ⟨found, log⟩ := answer
          rw [runOk]
          simp only
          rw [runBind (stripSourcesRun (sourcesHold sound there)), runGet]
          rfl

theorem inPlaceFails [Pattern.Dialect] [Settings.Format] {failure : Failure}
    (failed : strip find root o = .error failure) :
    (stripInPlace find o).run.run root = (.error failure, root) := by
  have run := stripInPlaceRun find root o
  rwa [failed] at run

theorem inPlaceFinishes [Pattern.Dialect] [Settings.Format] (sound : root.Sound)
    {done : Completion} (finished : strip find root o = .ok done) :
    (stripInPlace find o).run.run root = (.ok done, done.tree) := by
  have run := stripInPlaceRun find root o
  rw [finished] at run
  exact run sound

end

end CommentStrip.Run
