import CommentStrip.Proofs.Glob.Matching
import CommentStrip.Proofs.Pattern.AllOrNothing
import CommentStrip.Proofs.Walk
import CommentStrip.Settings.Basic

/-! Directories that are left out are only an optimization for globs of the usual forms: each
file below such a directory is left out by its own path. -/
namespace CommentStrip
open Text

/- The last character of a glob is a star, or it stands for itself and is no slash. -/
def Glob.Usual (glob : List Char) : Prop :=
  ∃ c, glob.getLast? = some c ∧ c ≠ '/' ∧ c ≠ '?' ∧ c ≠ ']'

instance (glob : List Char) : Decidable (Glob.Usual glob) :=
  decidable_of_iff (glob.getLast?.any fun c => c ≠ '/' ∧ c ≠ '?' ∧ c ≠ ']') (by
    unfold Glob.Usual
    cases glob.getLast? <;> simp)

theorem Settings.builtInUsual : ∀ glob ∈ builtInExcludes, Glob.Usual glob.toList := by
  decide +kernel

namespace ExcludeSet

theorem globsOnly {globs : List String} {set : ExcludeSet} (compiled : compile globs [] = .ok set) :
    set.regexes = [] ∧ ∀ rule ∈ set.globs, rule.glob ∈ globs ∧
      ∃ p, Pattern.read (Glob.expression rule.glob.toList) = .ok p ∧
        rule.covers = Pattern.occurs p := by
  obtain ⟨together, regexes⟩ := compileReads.mp compiled
  obtain ⟨named, reads⟩ := pairedParts together
  refine ⟨List.forall₂_nil_left_iff.mp regexes, fun rule listed => ⟨?_, ?_⟩⟩
  · rw [← named]
    exact List.mem_map_of_mem listed
  · obtain ⟨p, read, covers⟩ := Pattern.readSpoken (reads rule listed).read
    rw [String.toList_ofList] at read
    exact ⟨p, read, covers⟩

theorem excludesDown {globs : List String} {set : ExcludeSet} (compiled : compile globs [] = .ok set)
    (usual : ∀ glob ∈ globs, Glob.Usual glob.toList) {directory more : List Char}
    (line : '\n' ∉ more) (excluded : set.excludes (directory ++ ['/']) = true) :
    set.excludes (directory ++ '/' :: more) = true := by
  obtain ⟨none, rules⟩ := globsOnly compiled
  rw [excludes, none, List.any_nil, Bool.or_false, List.any_eq_true] at excluded ⊢
  obtain ⟨rule, listed, covered⟩ := excluded
  obtain ⟨given, p, read, covers⟩ := rules rule listed
  obtain ⟨c, ends, slash, any, bracket⟩ := usual rule.glob given
  rw [covers] at covered
  refine ⟨rule, listed, ?_⟩
  rw [covers]
  exact Glob.globDown read ends slash any bracket line covered

end ExcludeSet

namespace FileTree

theorem filesSteps {tree : FileTree} (sound : tree.Sound) :
    ∀ file ∈ tree.files, ∀ name ∈ file.1, IsStep name := by
  induction sound with
  | file content executable =>
    intro file listed name inside
    obtain rfl := List.mem_singleton.mp listed
    cases inside
  | @directory entries ordered steps below ih =>
    rintro ⟨place, content⟩ listed name inside
    obtain ⟨first, tree, rest, rfl, entry, listed⟩ := filesAmongIff.mp listed
    rcases List.mem_cons.mp inside with rfl | inside
    · exact steps _ entry
    · exact ih _ entry _ listed name inside

end FileTree

namespace Walk
variable {set : ExcludeSet} {at_ : Position}

def visited (set : ExcludeSet) (at_ : Position) (file : Place × List UInt8) : List Source :=
  sourceAt set (file.1.foldl Position.down at_) file.2

theorem stepPresent {name : List Char} (step : FileTree.IsStep name) : name ≠ [] := by
  rintro rfl
  cases step.1

def Proper (relative : List Char) : Prop := relative ≠ [] ∧ relative.getLast? ≠ some '/'

theorem joinProper {relative name : List Char} (proper : Proper relative) :
    Path.join relative name = relative ++ '/' :: name :=
  if_neg (not_or.mpr proper)

theorem downProper {relative name : List Char} (begun : relative = [] ∨ Proper relative)
    (step : FileTree.IsStep name) : Proper (Path.join relative name) := by
  have present := stepPresent step
  have noSlash : name.getLast? ≠ some '/' := fun ends => step.2 (List.mem_of_getLast? ends)
  rcases begun with rfl | proper
  · exact ⟨present, noSlash⟩
  · rw [joinProper proper]
    refine ⟨List.append_ne_nil_of_left_ne_nil proper.1 _, ?_⟩
    rw [List.getLast?_append, List.getLast?_cons]
    cases ends : name.getLast? with
    | none => exact absurd (List.getLast?_eq_none_iff.mp ends) present
    | some c => simpa [ends] using noSlash

theorem joinNext (mark part next : List Char) (rest : List (List Char)) :
    joinWith mark (part :: next :: rest) = part ++ mark ++ joinWith mark (next :: rest) := by
  rw [joinWith]
  intro same
  cases same

theorem relativeBelow {names : List (List Char)} (steps : ∀ name ∈ names, FileTree.IsStep name)
    (proper : Proper at_.relative) (some : names ≠ []) :
    (names.foldl Position.down at_).relative = at_.relative ++ '/' :: joinWith ['/'] names := by
  induction names generalizing at_ with
  | nil => exact absurd rfl some
  | cons name rest ih =>
    have first : (at_.down name).relative = at_.relative ++ '/' :: name := joinProper proper
    rw [List.foldl_cons]
    cases rest with
    | nil => exact first
    | cons next rest =>
      rw [ih (fun other listed => steps other (List.mem_cons_of_mem _ listed))
        (downProper (.inr proper) (steps name List.mem_cons_self)) (List.cons_ne_nil _ _), first,
        joinNext]
      simp

theorem joinLine {names : List (List Char)} (lines : ∀ name ∈ names, '\n' ∉ name) :
    '\n' ∉ joinWith ['/'] names := by
  induction names with
  | nil => exact List.not_mem_nil
  | cons name rest ih =>
    have first := lines name List.mem_cons_self
    cases rest with
    | nil => exact first
    | cons next rest =>
      have later := ih fun other listed => lines other (List.mem_cons_of_mem _ listed)
      rw [joinNext]
      simp [first, later]

theorem sourceAtExcluded (excluded : set.excludes at_.relative = true) (content : List UInt8) :
    sourceAt set at_ content = [] := by
  unfold sourceAt
  cases Path.family? at_.path with
  | none => rfl
  | some family => exact if_pos excluded

/- What leaves out a directory leaves out all that is below it. -/
def Down (set : ExcludeSet) : Prop :=
  ∀ directory more, '\n' ∉ more → set.excludes (directory ++ ['/']) = true →
    set.excludes (directory ++ '/' :: more) = true

mutual

theorem sourcesOfVisited (down : Down set) (at_ : Position) {tree : FileTree} (sound : tree.Sound)
    (lines : ∀ file ∈ tree.files, ∀ name ∈ file.1, '\n' ∉ name) (proper : Proper at_.relative) :
    sourcesOf set at_ tree = tree.files.flatMap (visited set at_) := by
  cases tree with
  | file content executable =>
    rw [sourcesOf, FileTree.files, FileTree.filesBelow, List.flatMap_singleton]
    rfl
  | directory entries =>
    rw [sourcesOf]
    cases sound with
    | directory ordered steps below =>
    split
    · rename_i excluded
      refine (List.flatMap_eq_nil_iff.mpr ?_).symm
      rintro ⟨place, content⟩ listed
      have inside := FileTree.filesSteps (.directory ordered steps below) _ listed
      obtain ⟨first, tree, rest, same, -⟩ := FileTree.filesAmongIff.mp listed
      refine sourceAtExcluded ?_ content
      rw [relativeBelow inside proper (same ▸ List.cons_ne_nil _ _)]
      exact down _ _ (joinLine (lines _ listed)) excluded
    · exact sourcesAmongVisited down at_ steps below lines (.inr proper)

theorem sourcesAmongVisited (down : Down set) (at_ : Position)
    {entries : List (List Char × FileTree)} (steps : ∀ entry ∈ entries, FileTree.IsStep entry.1)
    (below : ∀ entry ∈ entries, entry.2.Sound)
    (lines : ∀ file ∈ FileTree.filesAmong [] entries, ∀ name ∈ file.1, '\n' ∉ name)
    (begun : at_.relative = [] ∨ Proper at_.relative) :
    sourcesAmong set at_ entries = (FileTree.filesAmong [] entries).flatMap (visited set at_) := by
  cases entries with
  | nil => rfl
  | cons entry rest =>
    obtain ⟨name, tree⟩ := entry
    rw [FileTree.filesAmongCons] at lines
    rw [sourcesAmong, FileTree.filesAmongCons, List.flatMap_append, List.flatMap_map,
      sourcesOfVisited down (at_.down name) (below _ List.mem_cons_self) ?_
        (downProper begun (steps _ List.mem_cons_self)),
      sourcesAmongVisited down at_ (fun entry listed => steps entry (List.mem_cons_of_mem _ listed))
        (fun entry listed => below entry (List.mem_cons_of_mem _ listed)) ?_ begun]
    · rfl
    · exact fun file listed => lines file (List.mem_append_right _ listed)
    · intro file listed other inside
      exact lines (name :: file.1, file.2)
        (List.mem_append_left _ (List.mem_map.mpr ⟨file, listed, rfl⟩)) other
        (List.mem_cons_of_mem _ inside)

end

theorem foldPath (names : List (List Char)) (at_ : Position) :
    (names.foldl Position.down at_).path = names.foldl Path.join at_.path := by
  induction names generalizing at_ with
  | nil => rfl
  | cons name rest ih => exact ih (at_.down name)

theorem foldPlace (names : List (List Char)) (at_ : Position) :
    (names.foldl Position.down at_).place = at_.place ++ names := by
  induction names generalizing at_ with
  | nil => exact (List.append_nil _).symm
  | cons name rest ih => exact (ih (at_.down name)).trans (List.append_assoc at_.place [name] rest)

theorem foldRelative {names : List (List Char)} (steps : ∀ name ∈ names, FileTree.IsStep name)
    (start : at_.relative = []) :
    (names.foldl Position.down at_).relative = joinWith ['/'] names := by
  cases names with
  | nil => exact start
  | cons name rest =>
    have first : (at_.down name).relative = name := by
      rw [Position.down, start]
      rfl
    cases rest with
    | nil => exact first
    | cons next rest =>
      rw [List.foldl_cons, relativeBelow (fun other listed => steps other
        (List.mem_cons_of_mem _ listed)) (downProper (.inl start) (steps name List.mem_cons_self))
        (List.cons_ne_nil _ _), first, joinNext]
      simp

def takenUp (set : ExcludeSet) (target : List Char) (place : Place)
    (file : Place × List UInt8) : Option Source :=
  let path := file.1.foldl Path.join target
  let relative := joinWith ['/'] file.1
  if set.excludes relative then none
  else (Path.family? path).map fun family => ⟨path, relative, place ++ file.1, family, file.2⟩

theorem visitedTakenUp {target : List Char} {place : Place} {file : Place × List UInt8}
    (steps : ∀ name ∈ file.1, FileTree.IsStep name) :
    visited set ⟨target, [], place⟩ file = (takenUp set target place file).toList := by
  rw [visited, sourceAt, takenUp, foldPath, foldPlace, foldRelative steps rfl]
  cases Path.family? (file.1.foldl Path.join target) <;>
    cases set.excludes (joinWith ['/'] file.1) <;> rfl

/- The walk of a directory takes up the files that it would take up if it entered every directory
below. -/
theorem pruningLosesNothing {root : FileTree} (sound : root.Sound) {globs : List String}
    {set : ExcludeSet} (compiled : ExcludeSet.compile globs [] = .ok set)
    (usual : ∀ glob ∈ globs, Glob.Usual glob.toList) {target : List Char} {place : Place}
    {entries : List (List Char × FileTree)} (located : root.locate? target = some place)
    (there : root.at? place = some (.directory entries))
    (lines : ∀ file ∈ (FileTree.directory entries).files, ∀ name ∈ file.1, '\n' ∉ name) :
    select root set target =
        .sources ((FileTree.directory entries).files.filterMap (takenUp set target place)) ∧
      (∀ directory more, '\n' ∉ directory → '\n' ∉ more →
        set.excludes (directory ++ ['/']) = true →
        set.excludes (directory ++ '/' :: more) = true) ∧
      ∀ glob ∈ Settings.builtInExcludes, Glob.Usual glob.toList := by
  have down : Down set := fun directory more => ExcludeSet.excludesDown compiled usual
  have below := FileTree.soundAt sound there
  refine ⟨?_, fun directory more _ => down directory more, Settings.builtInUsual⟩
  have all : sourcesAmong set ⟨target, [], place⟩ entries =
      (FileTree.directory entries).files.flatMap (visited set ⟨target, [], place⟩) := by
    cases below with
    | directory ordered steps sound => exact sourcesAmongVisited down _ steps sound lines (.inl rfl)
  rw [select, located]
  simp only [there, all, List.filterMap_eq_flatMap_toList]
  refine congrArg _ (List.flatMap_congr fun file listed => ?_)
  exact visitedTakenUp (FileTree.filesSteps below file listed)

theorem pruningLosesNothingBelowA :
    let root : FileTree := .directory
      [("a".toList, .directory [("x.py".toList, .file [35] false)]),
        ("b.py".toList, .file [35] false), ("c.txt".toList, .file [35] false)]
    root.Sound ∧ ∃ set, ExcludeSet.compile ["a/**"] [] = .ok set ∧
      set.excludes "a/".toList = true ∧
      select root set ['.'] =
        .sources (root.files.filterMap (takenUp set ['.'] [])) ∧
      root.files.filterMap (takenUp set ['.'] []) =
        [⟨"./b.py".toList, "b.py".toList, ["b.py".toList], .python, [35]⟩] := by
  intro root
  have sound : root.Sound := by
    refine .directory (by decide +kernel) (by unfold FileTree.IsStep; decide +kernel) ?_
    intro entry listed
    simp only [List.mem_cons, List.not_mem_nil, or_false] at listed
    obtain rfl | rfl | rfl := listed
    · refine .directory (by decide +kernel) (by unfold FileTree.IsStep; decide +kernel) ?_
      intro entry listed
      obtain rfl := List.mem_singleton.mp listed
      exact .file _ _
    · exact .file _ _
    · exact .file _ _
  cases rules : ExcludeSet.compile ["a/**"] [] with
  | error bad =>
    have usable : (ExcludeSet.compile ["a/**"] []).toOption.isSome = true := by decide +kernel
    rw [rules] at usable
    cases usable
  | ok set =>
    have runs : (ExcludeSet.compile ["a/**"] []).toOption.map (fun set =>
        (set.excludes "a/".toList, root.files.filterMap (takenUp set ['.'] []))) =
        some (true, [⟨"./b.py".toList, "b.py".toList, ["b.py".toList], .python, [35]⟩]) := by
      decide +kernel
    rw [rules] at runs
    obtain ⟨excluded, taken⟩ := Prod.mk.inj (Option.some.inj runs)
    have here : root.locate? ['.'] = some [] := rfl
    obtain ⟨selected, -, -⟩ :=
      pruningLosesNothing sound rules (by decide +kernel) here rfl (by decide +kernel)
    exact ⟨sound, set, rfl, excluded, selected, taken⟩

end Walk
end CommentStrip
