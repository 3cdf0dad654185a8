import CommentStrip.FileTree
import Mathlib.Data.List.Nodup

/-! What is read at the places of a tree, and that a file which is replaced leaves all others as
they are. -/
namespace CommentStrip.FileTree
open Text

def IsStep (name : List Char) : Prop :=
  Path.component? name = some (.name name) ∧ '/' ∉ name

/- Directories list their entries in the order of the names, each name once. -/
inductive Sound : FileTree → Prop
  | file (content executable) : Sound (.file content executable)
  | directory {entries} (ordered : (entries.map Prod.fst).Pairwise (· < ·))
      (steps : ∀ entry ∈ entries, IsStep entry.1) (below : ∀ entry ∈ entries, Sound entry.2) :
      Sound (.directory entries)

def read? (tree : FileTree) (place : Place) : Option (List UInt8) :=
  (tree.at? place).bind content?

theorem orderedOnce {entries : List (List Char × FileTree)}
    (ordered : (entries.map Prod.fst).Pairwise (· < ·)) : (entries.map Prod.fst).Nodup :=
  ordered.imp fun {_ _} less => Std.ne_of_lt less

theorem lookupIff {entries : List (List Char × FileTree)}
    (once : (entries.map Prod.fst).Nodup) {name : List Char} {tree : FileTree} :
    entries.lookup name = some tree ↔ (name, tree) ∈ entries := by
  induction entries with
  | nil => simp
  | cons entry rest ih =>
    obtain ⟨other, there⟩ := entry
    obtain ⟨apart, once⟩ := List.nodup_cons.mp once
    rw [List.lookup_cons]
    by_cases same : name = other
    · subst same
      have fresh : (name, tree) ∉ rest := fun inside =>
        apart (List.mem_map.mpr ⟨_, inside, rfl⟩)
      simp [fresh, eq_comm]
    · have apart : (name == other) = false := by simpa using same
      simp [apart, same, ih once]

mutual

theorem filesBelowFrom (here : Place) (tree : FileTree) :
    filesBelow here tree = (filesBelow [] tree).map fun file => (here ++ file.1, file.2) := by
  cases tree with
  | file content executable => simp [filesBelow]
  | directory entries => exact filesAmongFrom here entries

theorem filesAmongFrom (here : Place) (entries : List (List Char × FileTree)) :
    filesAmong here entries = (filesAmong [] entries).map fun file => (here ++ file.1, file.2) := by
  cases entries with
  | nil => rfl
  | cons entry rest =>
    obtain ⟨name, tree⟩ := entry
    rw [filesAmong, filesAmong, filesBelowFrom (here ++ [name]), filesBelowFrom ([] ++ [name]),
      filesAmongFrom here rest]
    simp [Function.comp_def]

end

theorem filesAmongCons (name : List Char) (tree : FileTree)
    (rest : List (List Char × FileTree)) :
    filesAmong [] ((name, tree) :: rest) =
      (tree.files.map fun file => (name :: file.1, file.2)) ++ filesAmong [] rest := by
  rw [filesAmong, filesBelowFrom]
  rfl

theorem filesAmongIff {entries : List (List Char × FileTree)} {place : Place}
    {content : List UInt8} : (place, content) ∈ filesAmong [] entries ↔
      ∃ name tree below, place = name :: below ∧ (name, tree) ∈ entries ∧
        (below, content) ∈ tree.files := by
  induction entries with
  | nil => simp [filesAmong]
  | cons entry rest ih =>
    obtain ⟨other, there⟩ := entry
    rw [filesAmongCons, List.mem_append, ih, List.mem_map]
    constructor
    · rintro (⟨⟨below, content⟩, inside, same⟩ | ⟨name, tree, below, rfl, listed, inside⟩)
      · cases same
        exact ⟨other, there, below, rfl, List.mem_cons_self, inside⟩
      · exact ⟨name, tree, below, rfl, List.mem_cons_of_mem _ listed, inside⟩
    · rintro ⟨name, tree, below, rfl, listed, inside⟩
      rcases List.mem_cons.mp listed with same | listed
      · cases same
        exact .inl ⟨(below, content), inside, rfl⟩
      · exact .inr ⟨name, tree, below, rfl, listed, inside⟩

theorem filesIff {tree : FileTree} (sound : tree.Sound) {place : Place} {content : List UInt8} :
    (place, content) ∈ tree.files ↔ tree.read? place = some content := by
  induction sound generalizing place with
  | file old executable =>
    cases place with
    | nil => simp [files, filesBelow, read?, at?, content?, eq_comm]
    | cons name more => simp [files, filesBelow, read?, at?, entries]
  | @directory entries ordered steps below ih =>
    rw [files, filesBelow, filesAmongIff]
    cases place with
    | nil => simp [read?, at?, content?]
    | cons name more =>
      rw [read?, at?, FileTree.entries]
      constructor
      · rintro ⟨name, tree, below, same, listed, inside⟩
        cases same
        rw [(lookupIff (orderedOnce ordered)).mpr listed]
        exact (ih _ listed).mp inside
      · intro read
        cases found : entries.lookup name with
        | none => simp [found] at read
        | some tree =>
          have listed := (lookupIff (orderedOnce ordered)).mp found
          rw [found] at read
          exact ⟨name, tree, more, rfl, listed, (ih _ listed).mpr read⟩

theorem filesOnce {tree : FileTree} (sound : tree.Sound) : (tree.files.map Prod.fst).Nodup := by
  induction sound with
  | file => simp [files, filesBelow]
  | @directory entries ordered steps below ih =>
    rw [files, filesBelow]
    clear steps below
    induction entries with
    | nil => simp [filesAmong]
    | cons entry rest later =>
      obtain ⟨name, tree⟩ := entry
      obtain ⟨apart, once⟩ := List.nodup_cons.mp (orderedOnce ordered)
      have here : (tree.files.map fun file => (name :: file.1, file.2)).map Prod.fst =
          (tree.files.map Prod.fst).map (name :: ·) := by simp [Function.comp_def]
      rw [filesAmongCons, List.map_append, here, List.nodup_append]
      refine ⟨(ih _ List.mem_cons_self).map List.cons_injective, ?_, ?_⟩
      · exact later (List.pairwise_cons.mp ordered).2 fun entry listed =>
          ih entry (List.mem_cons_of_mem _ listed)
      · intro place here other there same
        obtain ⟨below, -, rfl⟩ := List.mem_map.mp here
        obtain ⟨⟨place, content⟩, inside, rfl⟩ := List.mem_map.mp there
        obtain ⟨name', tree', below', place', listed, -⟩ := filesAmongIff.mp inside
        cases same.trans place'
        exact apart (List.mem_map.mpr ⟨_, listed, rfl⟩)

theorem filesAt {tree sub : FileTree} {place : Place} (there : tree.at? place = some sub)
    (here : Place) : (filesBelow (here ++ place) sub).Sublist (filesBelow here tree) := by
  induction place generalizing tree here with
  | nil =>
    cases there
    rw [List.append_nil]
  | cons name more ih =>
    rw [at?] at there
    cases found : tree.entries.lookup name with
    | none => simp [found] at there
    | some below =>
      rw [found] at there
      have inside : (filesBelow (here ++ [name]) below).Sublist (filesAmong here tree.entries) := by
        obtain ⟨before, after, listed, -⟩ := List.lookup_eq_some_iff.mp found
        rw [listed]
        clear found listed
        induction before with
        | nil => exact List.sublist_append_left _ _
        | cons entry before later => exact later.trans (List.sublist_append_right _ _)
      cases tree with
      | file => simp [entries] at found
      | directory entries =>
        have deeper := ih there (here ++ [name])
        rw [List.append_assoc, List.singleton_append] at deeper
        exact deeper.trans inside

theorem replaceBelow (content : List UInt8) (name : List Char) (more : Place)
    (entries : List (List Char × FileTree)) :
    replace content (name :: more) (.directory entries) = .directory (entries.map fun entry =>
      (entry.1, if entry.1 = name then replace content more entry.2 else entry.2)) := by
  rw [replace]
  congr 2
  funext ⟨other, below⟩
  by_cases same : other = name <;> simp only [same, if_true, if_false]

theorem lookupBelow (change : List Char → FileTree → FileTree)
    (entries : List (List Char × FileTree)) (name : List Char) :
    (entries.map fun entry => (entry.1, change entry.1 entry.2)).lookup name =
      (entries.lookup name).map (change name) := by
  induction entries with
  | nil => rfl
  | cons entry rest ih =>
    rw [List.map_cons, List.lookup_cons, List.lookup_cons, ih]
    cases same : name == entry.1 with
    | false => rfl
    | true => rw [eq_of_beq same]; rfl

theorem filesReplace (content : List UInt8) (place : Place) (tree : FileTree) :
    (replace content place tree).files =
      tree.files.map fun file => (file.1, if file.1 = place then content else file.2) := by
  induction place generalizing tree with
  | nil =>
    cases tree with
    | file => rfl
    | directory entries =>
      have deeper : ∀ file ∈ (directory entries).files, file.1 ≠ [] := by
        rintro ⟨place, old⟩ inside
        obtain ⟨name, tree, below, rfl, -⟩ := filesAmongIff.mp inside
        exact List.cons_ne_nil _ _
      rw [replace, eq_comm, List.map_congr_left (g := id) fun file inside => by
        rw [if_neg (deeper file inside)]; rfl, List.map_id]
  | cons name more ih =>
    cases tree with
    | file => rfl
    | directory entries =>
      rw [replaceBelow, files, files, filesBelow, filesBelow]
      induction entries with
      | nil => rfl
      | cons entry rest later =>
        obtain ⟨other, below⟩ := entry
        rw [List.map_cons, filesAmongCons, filesAmongCons, List.map_append, ← later,
          List.map_map]
        by_cases same : other = name
        · subst same
          simp only [if_true, ih, List.map_map]
          simp [Function.comp_def]
        · simp [Function.comp_def, same]

theorem replaceAlike (content : List UInt8) (place : Place) (tree : FileTree) (other : Place) :
    ((replace content place tree).at? other).map isDirectory =
      (tree.at? other).map isDirectory := by
  induction place generalizing tree other with
  | nil =>
    cases tree with
    | directory => rfl
    | file => cases other <;> rfl
  | cons name more ih =>
    cases tree with
    | file => rfl
    | directory entries =>
      cases other with
      | nil => rfl
      | cons step other =>
        rw [replaceBelow, at?, at?, FileTree.entries, FileTree.entries,
          lookupBelow fun there below => if there = name then replace content more below else below]
        cases entries.lookup step with
        | none => rfl
        | some below =>
          simp only [Option.map_some]
          split
          · exact ih below other
          · rfl

theorem replaceSound (content : List UInt8) (place : Place) {tree : FileTree}
    (sound : tree.Sound) : (replace content place tree).Sound := by
  induction place generalizing tree with
  | nil =>
    cases sound with
    | file => exact .file _ _
    | directory ordered steps below => exact .directory ordered steps below
  | cons name more ih =>
    cases sound with
    | file => exact .file _ _
    | @directory entries ordered steps below =>
      rw [replaceBelow]
      refine .directory ?_ ?_ ?_
      · rwa [List.map_map]
      · intro entry listed
        obtain ⟨old, there, rfl⟩ := List.mem_map.mp listed
        exact steps old there
      · intro entry listed
        obtain ⟨old, there, rfl⟩ := List.mem_map.mp listed
        simp only
        split
        · exact ih (below old there)
        · exact below old there

theorem readReplace (content : List UInt8) (place : Place) (tree : FileTree) (other : Place) :
    (replace content place tree).read? other =
      if other = place then (tree.read? other).map fun _ => content else tree.read? other := by
  induction place generalizing tree other with
  | nil =>
    cases tree with
    | directory entries => cases other <;> rfl
    | file => cases other <;> rfl
  | cons name more ih =>
    cases tree with
    | file old executable => cases other <;> simp [replace, read?, at?, entries]
    | directory entries =>
      cases other with
      | nil => rfl
      | cons step other =>
        rw [replaceBelow, read?, read?, at?, at?, FileTree.entries, FileTree.entries,
          lookupBelow fun there below => if there = name then replace content more below else below]
        cases entries.lookup step with
        | none => simp
        | some below =>
          simp only [Option.map_some, List.cons.injEq]
          by_cases same : step = name
          · simpa only [same, if_true, true_and, read?] using ih below other
          · simp only [same, if_false, false_and]

theorem changesPlaces (before : FileTree) {now : FileTree} (sound : now.Sound) :
    (before.changes now).map Prod.fst =
      (now.files.map Prod.fst).filter fun place => before.read? place ≠ now.read? place := by
  rw [changes, List.filter_map]
  congr 1
  apply List.filter_congr
  rintro ⟨place, content⟩ listed
  simp only [Function.comp, (filesIff sound).mp listed]
  rfl

end CommentStrip.FileTree
