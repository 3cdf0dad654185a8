import CommentStrip.Proofs.Pruning
import CommentStrip.Proofs.Text.ByteOrder

/-! The walk of a directory takes up each file once that neither it nor a directory on the way to it
is left out, in the order of the names on the way. A tree that is put together file by file has its
entries in this order, whatever the order in which the files come. -/
namespace CommentStrip
open Text

namespace FileTree

theorem filesOrdered {tree : FileTree} (sound : tree.Sound) :
    (tree.files.map Prod.fst).Pairwise (· < ·) := by
  induction sound with
  | file => simp [files, filesBelow]
  | @directory entries ordered steps below ih =>
    rw [files, filesBelow]
    clear steps below
    induction entries with
    | nil => simp [filesAmong]
    | cons entry rest later =>
      obtain ⟨name, tree⟩ := entry
      obtain ⟨first, ordered⟩ := List.pairwise_cons.mp ordered
      have here : (tree.files.map fun file => (name :: file.1, file.2)).map Prod.fst =
          (tree.files.map Prod.fst).map (name :: ·) := by simp [Function.comp_def]
      rw [filesAmongCons, List.map_append, here, List.pairwise_append]
      refine ⟨?_, ?_, ?_⟩
      · exact (ih _ List.mem_cons_self).map _ fun _ _ less =>
          List.cons_lt_cons_iff.mpr (.inr ⟨rfl, less⟩)
      · exact later ordered fun entry listed => ih entry (List.mem_cons_of_mem _ listed)
      · intro place inside other behind
        obtain ⟨below, -, rfl⟩ := List.mem_map.mp inside
        obtain ⟨⟨place, content⟩, among, rfl⟩ := List.mem_map.mp behind
        obtain ⟨next, tree', below', rfl, listed, -⟩ := filesAmongIff.mp among
        exact List.cons_lt_cons_iff.mpr (.inl (first next (List.mem_map.mpr ⟨_, listed, rfl⟩)))

section
variable {name : List Char} {tree : FileTree} {entries : List (List Char × FileTree)}

theorem setEntryMember {entry : List Char × FileTree}
    (listed : entry ∈ setEntry name tree entries) : entry = (name, tree) ∨ entry ∈ entries := by
  induction entries with
  | nil => exact .inl (List.mem_singleton.mp listed)
  | cons head rest ih =>
    obtain ⟨other, there⟩ := head
    rw [setEntry] at listed
    split at listed
    · exact List.mem_cons.mp listed
    split at listed
    · exact (List.mem_cons.mp listed).imp_right (List.mem_cons_of_mem _)
    · rcases List.mem_cons.mp listed with rfl | listed
      · exact .inr List.mem_cons_self
      · exact (ih listed).imp_right (List.mem_cons_of_mem _)

theorem setEntryOrdered (ordered : (entries.map Prod.fst).Pairwise (· < ·)) :
    ((setEntry name tree entries).map Prod.fst).Pairwise (· < ·) := by
  induction entries with
  | nil => exact List.pairwise_singleton _ _
  | cons head rest ih =>
    obtain ⟨other, there⟩ := head
    obtain ⟨first, later⟩ := List.pairwise_cons.mp ordered
    rw [setEntry]
    split
    · rename_i before
      refine List.pairwise_cons.mpr ⟨fun next listed => ?_, ordered⟩
      rcases List.mem_cons.mp listed with rfl | listed
      · exact before
      · exact List.lt_trans before (first next listed)
    split
    · rename_i same
      exact same ▸ ordered
    · rename_i notBefore apart
      have behind : other < name :=
        (List.le_iff_lt_or_eq.mp (List.not_lt.mp notBefore)).resolve_right (Ne.symm apart)
      refine List.pairwise_cons.mpr ⟨fun next listed => ?_, ih later⟩
      obtain ⟨entry, among, rfl⟩ := List.mem_map.mp listed
      rcases setEntryMember among with rfl | old
      · exact behind
      · exact first entry.1 (List.mem_map_of_mem old)

theorem emptySound : FileTree.empty.Sound := .directory .nil nofun nofun

theorem plantSound (sound : tree.Sound) {place : Place} (steps : ∀ name ∈ place, IsStep name)
    {there : FileTree} (before : there.Sound) : (plant tree place there).Sound := by
  induction place generalizing there with
  | nil => exact sound
  | cons name more ih =>
    obtain ⟨step, more'⟩ := List.forall_mem_cons.mp steps
    obtain ⟨ordered, stepsThere, below⟩ : (there.entries.map Prod.fst).Pairwise (· < ·) ∧
        (∀ entry ∈ there.entries, IsStep entry.1) ∧ ∀ entry ∈ there.entries, entry.2.Sound := by
      cases before with
      | file => exact ⟨.nil, nofun, nofun⟩
      | directory ordered steps below => exact ⟨ordered, steps, below⟩
    have old : ((there.entries.lookup name).getD empty).Sound := by
      cases found : there.entries.lookup name with
      | none => exact emptySound
      | some tree => exact below _ ((lookupIff (orderedOnce ordered)).mp found)
    refine .directory (setEntryOrdered ordered) (fun entry listed => ?_) fun entry listed => ?_
    · rcases setEntryMember listed with rfl | listed
      · exact step
      · exact stepsThere entry listed
    · rcases setEntryMember listed with rfl | listed
      · exact ih more' old
      · exact below entry listed

theorem plantedSound {planted : List (Place × FileTree)}
    (steps : ∀ file ∈ planted, ∀ name ∈ file.1, IsStep name)
    (sound : ∀ file ∈ planted, file.2.Sound) {there : FileTree} (before : there.Sound) :
    (planted.foldl (fun tree file => plant file.2 file.1 tree) there).Sound := by
  induction planted generalizing there with
  | nil => exact before
  | cons file rest ih =>
    obtain ⟨step, steps⟩ := List.forall_mem_cons.mp steps
    obtain ⟨here, sound⟩ := List.forall_mem_cons.mp sound
    exact ih steps sound (plantSound here step before)

end

theorem appendRead {root : FileTree} {place : Place} {tree : FileTree}
    (there : root.at? place = some tree) (names : Place) :
    root.read? (place ++ names) = tree.read? names := by
  induction place generalizing root with
  | nil =>
    cases there
    rfl
  | cons name more ih =>
    rw [at?] at there
    cases found : root.entries.lookup name with
    | none => simp [found] at there
    | some below =>
      rw [found] at there
      rw [List.cons_append, read?, at?, found]
      exact ih there

end FileTree

namespace Walk
variable {set : ExcludeSet} {at_ : Position}

/- The walk gets through to the end of the names: none of the directories that it comes to, the
first one included, is left out. -/
def Open (set : ExcludeSet) : Position → Place → Prop
  | _, [] => True
  | at_, name :: more => set.excludes (at_.relative ++ ['/']) = false ∧ Open set (at_.down name) more

theorem openIff {names : Place} : Open set at_ names ↔ ∀ above, above <+: names → above ≠ names →
    set.excludes ((above.foldl Position.down at_).relative ++ ['/']) = false := by
  induction names generalizing at_ with
  | nil =>
    exact iff_of_true trivial fun above front other => absurd (List.prefix_nil.mp front) other
  | cons name more ih =>
    rw [Open, ih]
    constructor
    · rintro ⟨here, later⟩ above front other
      rcases List.prefix_cons_iff.mp front with rfl | ⟨rest, rfl, within⟩
      · exact here
      · exact later rest within fun same => other (same ▸ rfl)
    · intro each
      refine ⟨each [] List.nil_prefix (List.cons_ne_nil _ _).symm, fun above front other => ?_⟩
      exact each (name :: above) (List.cons_prefix_cons.mpr ⟨rfl, front⟩) fun same =>
        other (List.cons.inj same).2

mutual

theorem sourcesOfIff (set : ExcludeSet) (at_ : Position) (tree : FileTree) (source : Source) :
    source ∈ sourcesOf set at_ tree ↔
      ∃ file ∈ tree.files, Open set at_ file.1 ∧ source ∈ visited set at_ file := by
  cases tree with
  | file content executable =>
    rw [sourcesOf, FileTree.files, FileTree.filesBelow]
    simp [Open, visited]
  | directory entries =>
    have deeper := sourcesAmongIff set at_ entries source
    rw [sourcesOf]
    have found : ∀ {file}, file ∈ (FileTree.directory entries).files ↔
        ∃ name tree below, file.1 = name :: below ∧ (name, tree) ∈ entries ∧
          (below, file.2) ∈ tree.files := FileTree.filesAmongIff
    constructor
    · intro listed
      split at listed
      · cases listed
      · rename_i entered
        obtain ⟨entry, among, file, inside, through, taken⟩ := deeper.mp listed
        exact ⟨(entry.1 :: file.1, file.2), found.mpr ⟨_, _, _, rfl, among, inside⟩,
          ⟨by simpa using entered, through⟩, taken⟩
    · rintro ⟨⟨names, content⟩, listed, through, taken⟩
      obtain ⟨name, tree, below, same, among, inside⟩ := found.mp listed
      obtain rfl : names = name :: below := same
      rw [if_neg (by rw [through.1]; exact Bool.false_ne_true)]
      exact deeper.mpr ⟨_, among, _, inside, through.2, taken⟩

theorem sourcesAmongIff (set : ExcludeSet) (at_ : Position)
    (entries : List (List Char × FileTree)) (source : Source) :
    source ∈ sourcesAmong set at_ entries ↔ ∃ entry ∈ entries, ∃ file ∈ entry.2.files,
      Open set (at_.down entry.1) file.1 ∧ source ∈ visited set (at_.down entry.1) file := by
  cases entries with
  | nil => simp [sourcesAmong]
  | cons entry rest =>
    obtain ⟨name, tree⟩ := entry
    rw [sourcesAmong, List.mem_append, sourcesOfIff set (at_.down name) tree,
      sourcesAmongIff set at_ rest, List.exists_mem_cons_iff]

end

theorem cutJoin {names : List (List Char)} (steps : ∀ name ∈ names, '/' ∉ name)
    (some : names ≠ []) : cutAt '/' (joinWith ['/'] names) = names := by
  induction names with
  | nil => exact absurd rfl some
  | cons name rest ih =>
    obtain ⟨first, later⟩ := List.forall_mem_cons.mp steps
    cases rest with
    | nil => exact cutAtPlain first
    | cons next rest =>
      rw [joinNext, List.append_assoc, List.singleton_append, cutAtAppend, cutAtPlain first,
        ih later (List.cons_ne_nil _ _)]
      rfl

/- What the walk of the directory at `place`, named as `target`, makes of the file below `names`. -/
structure Found (root : FileTree) (set : ExcludeSet) (target : List Char) (place : Place)
    (names : List (List Char)) (source : Source) : Prop where
  place : source.place = place ++ names
  content : root.read? source.place = some source.content
  path : source.path = names.foldl Path.join target
  relative : source.relative = joinWith ['/'] names
  /-- The file is of the family that its own path tells. -/
  family : Path.family? source.path = some source.family
  included : set.excludes source.relative = false
  /-- No directory below the target and above the file is left out. -/
  entered : ∀ above, above ≠ [] → above <+: names → above ≠ names →
    set.excludes (joinWith ['/'] above ++ ['/']) = false

def wayOf (source : Source) : List (List UInt8) := (cutAt '/' source.relative).map Utf8.encode

section
variable {root : FileTree} {target : List Char} {place : Place}
  {entries : List (List Char × FileTree)}

theorem takenFound {names : List (List Char)} {content : List UInt8} {source : Source} :
    takenUp set target place (names, content) = some source ↔
      source.place = place ++ names ∧ source.content = content ∧
        source.path = names.foldl Path.join target ∧ source.relative = joinWith ['/'] names ∧
        Path.family? source.path = some source.family ∧ set.excludes source.relative = false := by
  obtain ⟨path, relative, there, family, old⟩ := source
  constructor
  · intro taken
    simp only [takenUp] at taken
    split at taken
    · cases taken
    · rename_i included
      obtain ⟨family, read, same⟩ := Option.map_eq_some_iff.mp taken
      cases same
      exact ⟨rfl, rfl, rfl, rfl, read, by simpa using included⟩
  · rintro ⟨rfl, rfl, rfl, rfl, read, included⟩
    simp only [takenUp]
    rw [if_neg (by rw [included]; exact Bool.false_ne_true), read]
    rfl

theorem openBelow {name : List Char} {more : List (List Char)}
    (steps : ∀ step ∈ name :: more, FileTree.IsStep step) :
    Open set (Position.down ⟨target, [], place⟩ name) more ↔
      ∀ above, above ≠ [] → above <+: name :: more → above ≠ name :: more →
        set.excludes (joinWith ['/'] above ++ ['/']) = false := by
  have named {above : List (List Char)} (front : above <+: name :: more) :
      (above.foldl Position.down ⟨target, [], place⟩).relative = joinWith ['/'] above :=
    foldRelative (fun step inside => steps step (front.mem inside)) rfl
  rw [openIff]
  constructor
  · intro each above some front other
    rw [← named front]
    rcases List.prefix_cons_iff.mp front with rfl | ⟨rest, rfl, within⟩
    · exact absurd rfl some
    · exact each rest within fun same => other (same ▸ rfl)
  · intro each above front other
    have within : name :: above <+: name :: more := List.cons_prefix_cons.mpr ⟨rfl, front⟩
    have passed := each _ (List.cons_ne_nil _ _) within fun same => other (List.cons.inj same).2
    rwa [← named within] at passed

theorem Found.listed {names : List (List Char)} {source : Source}
    (found : Found root set target place names source)
    (there : root.at? place = some (.directory entries))
    (sound : (FileTree.directory entries).Sound) :
    (names, source.content) ∈ (FileTree.directory entries).files := by
  rw [FileTree.filesIff sound, ← FileTree.appendRead there, ← found.place]
  exact found.content

theorem amongFound (there : root.at? place = some (.directory entries))
    (sound : (FileTree.directory entries).Sound) {source : Source} :
    source ∈ sourcesAmong set ⟨target, [], place⟩ entries ↔
      ∃ names, Found root set target place names source := by
  rw [sourcesAmongIff]
  constructor
  · rintro ⟨⟨name, tree⟩, among, ⟨more, content⟩, inside, through, taken⟩
    have listed : (name :: more, content) ∈ (FileTree.directory entries).files :=
      FileTree.filesAmongIff.mpr ⟨_, _, _, rfl, among, inside⟩
    have steps := FileTree.filesSteps sound _ listed
    have visit : source ∈ visited set ⟨target, [], place⟩ (name :: more, content) := taken
    rw [visitedTakenUp steps, Option.mem_toList] at visit
    obtain ⟨stands, held, path, relative, family, included⟩ := takenFound.mp visit
    refine ⟨name :: more, stands, ?_, path, relative, family, included, (openBelow steps).mp through⟩
    rw [stands, FileTree.appendRead there, held]
    exact (FileTree.filesIff sound).mp listed
  · rintro ⟨names, found⟩
    have listed := found.listed there sound
    have steps := FileTree.filesSteps sound _ listed
    obtain ⟨name, tree, more, rfl, among, inside⟩ := FileTree.filesAmongIff.mp listed
    refine ⟨_, among, _, inside, (openBelow steps).mpr found.entered, ?_⟩
    have visit : source ∈ visited set ⟨target, [], place⟩ (name :: more, source.content) := by
      rw [visitedTakenUp steps, Option.mem_toList]
      exact takenFound.mpr
        ⟨found.place, rfl, found.path, found.relative, found.family, found.included⟩
    exact visit

theorem foundWay (there : root.at? place = some (.directory entries))
    (sound : (FileTree.directory entries).Sound) {names : List (List Char)} {source : Source}
    (found : Found root set target place names source) : wayOf source = names.map Utf8.encode := by
  have listed := found.listed there sound
  have steps := FileTree.filesSteps sound _ listed
  obtain ⟨name, tree, more, rfl, -⟩ := FileTree.filesAmongIff.mp listed
  rw [wayOf, found.relative,
    cutJoin (fun step inside => (steps step inside).2) (List.cons_ne_nil _ _)]

theorem lessBehind {a b : Place} (less : place ++ a < place ++ b) : a < b := by
  induction place with
  | nil => exact less
  | cons name more ih =>
    rcases List.cons_lt_cons_iff.mp less with before | ⟨-, later⟩
    · exact absurd before (List.lt_irrefl name)
    · exact ih later

/- The walk of a directory finds the files that neither they nor a directory on the way to them
leaves out, each of them once, in the order of the names on the way as bytes. -/
theorem walkFinds (sound : root.Sound) (set : ExcludeSet)
    (located : root.locate? target = some place) (there : root.at? place = some (.directory entries)) :
    ∃ found, select root set target = .sources found ∧
      (∀ source, source ∈ found ↔ ∃ names, Found root set target place names source) ∧
      found.Nodup ∧ (found.map wayOf).Pairwise (· < ·) := by
  have below := FileTree.soundAt sound there
  have selected := selectDirectory set located there
  have members : ∀ source, source ∈ sourcesAmong set ⟨target, [], place⟩ entries ↔
      ∃ names, Found root set target place names source := fun source => amongFound there below
  have ordered : ((sourcesAmong set ⟨target, [], place⟩ entries).map wayOf).Pairwise (· < ·) := by
    have places :
        ((sourcesAmong set ⟨target, [], place⟩ entries).map Source.place).Pairwise (· < ·) := by
      have files := (selectedFiles selected).map Prod.fst
      rw [List.map_map] at files
      exact (FileTree.filesOrdered sound).sublist files
    rw [List.pairwise_map] at places ⊢
    refine places.imp_of_mem fun {a b} first second less => ?_
    obtain ⟨names, first⟩ := (members a).mp first
    obtain ⟨others, second⟩ := (members b).mp second
    rw [foundWay there below first, foundWay there below second]
    rw [first.place, second.place] at less
    exact List.map_lt (fun _ _ => Utf8.encodeLess) (lessBehind less)
  refine ⟨_, selected, members, ?_, ordered⟩
  exact List.Nodup.of_map wayOf (ordered.imp fun {_ _} less => Std.ne_of_lt less)

/- A directory stands where its name does, so that in this order `a/x.py` comes before `a-b.py`. -/
theorem walkFindsBelowA :
    let planted : List (Place × FileTree) :=
      [(["skip".toList, "z.py".toList], .file [35] false), (["a-b.py".toList], .file [35] false),
        (["a".toList, "y.txt".toList], .file [35] false),
        (["a".toList, "x.py".toList], .file [35] false)]
    let root := planted.foldl (fun tree file => FileTree.plant file.2 file.1 tree) .empty
    root.Sound ∧ root.locate? ['.'] = some [] ∧ ∃ set found,
      ExcludeSet.compile ["skip/**"] [] = .ok set ∧ select root set ['.'] = .sources found ∧
      (∀ source, source ∈ found ↔ ∃ names, Found root set ['.'] [] names source) ∧
      (found.map wayOf).Pairwise (· < ·) ∧
      found.map Source.relative = ["a/x.py".toList, "a-b.py".toList] := by
  intro planted root
  have sound : root.Sound := by
    refine FileTree.plantedSound (by unfold FileTree.IsStep; decide +kernel) ?_ FileTree.emptySound
    intro file listed
    simp only [planted, List.mem_cons, List.not_mem_nil, or_false] at listed
    obtain rfl | rfl | rfl | rfl := listed <;> exact .file _ _
  have located : root.locate? ['.'] = some [] := by decide +kernel
  cases rules : ExcludeSet.compile ["skip/**"] [] with
  | error bad =>
    have usable : (ExcludeSet.compile ["skip/**"] []).toOption.isSome = true := by decide +kernel
    rw [rules] at usable
    cases usable
  | ok set =>
    obtain ⟨found, selected, members, -, ordered⟩ := walkFinds sound set located rfl
    have runs : (ExcludeSet.compile ["skip/**"] []).toOption.map (fun set =>
        match select root set ['.'] with
        | .sources found => found.map Source.relative
        | _ => []) = some ["a/x.py".toList, "a-b.py".toList] := by decide +kernel
    rw [rules] at runs
    simp only [Except.toOption, Option.map_some, selected, Option.some.injEq] at runs
    exact ⟨sound, located, set, found, rfl, selected, members, ordered, runs⟩

end

end Walk
end CommentStrip
