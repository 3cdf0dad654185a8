import CommentStrip.Walk
import CommentStrip.Proofs.Located

/-! What a walk selects: files of the tree in the order of the listing, each under a path that
leads to it. -/
namespace CommentStrip
open Text

def Source.file (source : Source) : Place × List UInt8 := (source.place, source.content)

namespace Walk
variable {set : ExcludeSet} {at_ : Position}

theorem sourceAtFile (content : List UInt8) :
    ((sourceAt set at_ content).map Source.file).Sublist [(at_.place, content)] := by
  unfold sourceAt
  split
  · split
    · exact List.nil_sublist _
    · exact List.Sublist.refl _
  · exact List.nil_sublist _

mutual

theorem sourcesOfFiles (set : ExcludeSet) (at_ : Position) (tree : FileTree) :
    ((sourcesOf set at_ tree).map Source.file).Sublist (tree.filesBelow at_.place) := by
  cases tree with
  | file content executable => exact sourceAtFile content
  | directory entries =>
    rw [sourcesOf, FileTree.filesBelow]
    split
    · exact List.nil_sublist _
    · exact sourcesAmongFiles set at_ entries

theorem sourcesAmongFiles (set : ExcludeSet) (at_ : Position)
    (entries : List (List Char × FileTree)) :
    ((sourcesAmong set at_ entries).map Source.file).Sublist
      (FileTree.filesAmong at_.place entries) := by
  cases entries with
  | nil => exact List.Sublist.refl _
  | cons entry rest =>
    obtain ⟨name, tree⟩ := entry
    rw [sourcesAmong, FileTree.filesAmong, List.map_append]
    exact (sourcesOfFiles set (at_.down name) tree).append (sourcesAmongFiles set at_ rest)

end

theorem selectDirectory {root : FileTree} (set : ExcludeSet) {target : List Char} {place : Place}
    {entries : List (List Char × FileTree)} (located : root.locate? target = some place)
    (there : root.at? place = some (.directory entries)) :
    select root set target = .sources (sourcesAmong set ⟨target, [], place⟩ entries) := by
  rw [select, located]
  simp only [there]

theorem selectedFiles {root : FileTree} {target : List Char} {found : List Source}
    (selected : select root set target = .sources found) :
    (found.map Source.file).Sublist root.files := by
  unfold select at selected
  split at selected
  · cases selected
  · rename_i place located
    split at selected
    · cases selected
    · rename_i content executable there
      have below := FileTree.filesAt there []
      refine List.Sublist.trans ?_ below
      unfold single at selected
      simp only at selected
      split at selected
      · cases selected
        exact List.nil_sublist _
      · split at selected
        · cases selected
          exact List.Sublist.refl _
        · cases selected
    · rename_i entries there
      cases selected
      exact (sourcesAmongFiles set ⟨target, [], place⟩ entries).trans (FileTree.filesAt there [])

/- A position says of one tree where it is: the path leads to the place, and there it stands. -/
structure Position.Stands (root : FileTree) (at_ : Position) (tree : FileTree) : Prop where
  located : root.locate? at_.path = some at_.place
  there : root.at? at_.place = some tree

theorem Position.Stands.down {root : FileTree} (sound : root.Sound)
    {entries : List (List Char × FileTree)} (stands : Stands root at_ (.directory entries))
    {entry : List Char × FileTree} (listed : entry ∈ entries) :
    Stands root (at_.down entry.1) entry.2 := by
  cases FileTree.soundAt sound stands.there with
  | directory ordered steps below =>
    have found := (FileTree.lookupIff (FileTree.orderedOnce ordered)).mpr listed
    exact ⟨FileTree.locateJoin stands.located stands.there (steps entry listed) found,
      (FileTree.atBelow stands.there entry.1).trans found⟩

mutual

theorem sourcesOfNamed {root : FileTree} (sound : root.Sound) (set : ExcludeSet) {at_ : Position}
    (tree : FileTree) (stands : at_.Stands root tree) :
    ∀ source ∈ sourcesOf set at_ tree, root.locate? source.path = some source.place := by
  intro source selected
  cases tree with
  | file content executable =>
    rw [sourcesOf, sourceAt] at selected
    split at selected
    · split at selected
      · cases selected
      · obtain rfl := List.mem_singleton.mp selected
        exact stands.located
    · cases selected
  | directory entries =>
    rw [sourcesOf] at selected
    split at selected
    · cases selected
    · exact sourcesAmongNamed sound set entries
        (fun entry listed => stands.down sound listed) source selected

theorem sourcesAmongNamed {root : FileTree} (sound : root.Sound) (set : ExcludeSet)
    {at_ : Position} (entries : List (List Char × FileTree))
    (stand : ∀ entry ∈ entries, (at_.down entry.1).Stands root entry.2) :
    ∀ source ∈ sourcesAmong set at_ entries, root.locate? source.path = some source.place := by
  intro source selected
  cases entries with
  | nil => cases selected
  | cons entry rest =>
    obtain ⟨name, tree⟩ := entry
    rw [sourcesAmong, List.mem_append] at selected
    rcases selected with here | later
    · exact sourcesOfNamed sound set tree (stand _ List.mem_cons_self) source here
    · exact sourcesAmongNamed sound set rest
        (fun entry listed => stand entry (List.mem_cons_of_mem _ listed)) source later

end

theorem selectedNamed {root : FileTree} (sound : root.Sound) {target : List Char}
    {found : List Source} (selected : select root set target = .sources found) :
    ∀ source ∈ found, root.locate? source.path = some source.place := by
  unfold select at selected
  split at selected
  · cases selected
  · rename_i place located
    split at selected
    · cases selected
    · unfold single at selected
      simp only at selected
      split at selected
      · cases selected
        nofun
      · split at selected
        · cases selected
          intro source listed
          obtain rfl := List.mem_singleton.mp listed
          exact located
        · cases selected
    · rename_i entries there
      cases selected
      have stands : Position.Stands root ⟨target, [], place⟩ (.directory entries) :=
        ⟨located, there⟩
      exact sourcesAmongNamed sound set entries fun entry listed => stands.down sound listed

end Walk
end CommentStrip
