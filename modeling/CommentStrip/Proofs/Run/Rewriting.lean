import CommentStrip.Proofs.Run.Setup
import CommentStrip.Proofs.Text.Utf8
import CommentStrip.Proofs.Walk

/-! Files at work. A source is rewritten when its text changes; after a run every place holds
what its source was rewritten to, or what it held before. -/
namespace CommentStrip
open Text

def Source.rewritten (engine : Engine) (policy : Whitespace.Policy) (source : Source) :
    List UInt8 :=
  match source.text? with
  | some text => Utf8.encode (policy.apply (engine.strip source.family text).text)
  | none => source.content

namespace Run
variable {engine : Engine} {policy : Whitespace.Policy} {source : Source} {tree : FileTree}

theorem textIff {text : List Char} :
    source.text? = some text ↔ Utf8.decode source.content = .ok text := by
  rw [Source.text?]
  cases Utf8.decode source.content <;> simp [Except.toOption]

theorem stripFileSource (engine : Engine) (policy : Whitespace.Policy) (source : Source) :
    (stripFile engine policy source).source = source := by
  unfold stripFile
  split <;> rfl

theorem stripFileCases (engine : Engine) (policy : Whitespace.Policy) (source : Source) :
    (source.rewritten engine policy = source.content ∧
        (stripFile engine policy source).isChanged = false ∧
        ∀ tree, writeBack tree (stripFile engine policy source) = tree) ∨
      ∃ before after, source.rewritten engine policy ≠ source.content ∧
        Utf8.decode source.content = .ok before ∧
        source.rewritten engine policy = Utf8.encode after ∧
        (stripFile engine policy source).status = .changed before after := by
  unfold stripFile Source.rewritten
  cases text : source.text? with
  | none => exact .inl ⟨rfl, rfl, fun _ => rfl⟩
  | some before =>
    have read := textIff.mp text
    by_cases same : policy.apply (engine.strip source.family before).text = before
    · refine .inl ⟨?_, ?_, ?_⟩
      · simp only [same, Utf8.encodeDecode read]
      · simp [same, FileReport.isChanged]
      · simp [same, writeBack]
    · refine .inr ⟨before, _, fun kept => same ?_, read, rfl, by simp [same]⟩
      exact Utf8.encodeInj (kept.trans (Utf8.encodeDecode read).symm)

theorem changedIff : (stripFile engine policy source).isChanged =
    decide (source.rewritten engine policy ≠ source.content) := by
  rcases stripFileCases engine policy source with
    ⟨same, kept, -⟩ | ⟨before, after, other, -, -, status⟩
  · simp [same, kept]
  · simp [other, FileReport.isChanged, status]

theorem writeBackRead (there : tree.read? source.place = some source.content) (place : Place) :
    (writeBack tree (stripFile engine policy source)).read? place =
      if place = source.place then some (source.rewritten engine policy)
      else tree.read? place := by
  rcases stripFileCases engine policy source with
    ⟨same, -, kept⟩ | ⟨before, after, -, -, encoded, status⟩
  · rw [kept, same]
    split
    · rename_i here
      rw [here, there]
    · rfl
  · have written : writeBack tree (stripFile engine policy source) =
        tree.replace (Utf8.encode after) source.place := by
      rw [writeBack, status, stripFileSource]
    rw [written, FileTree.readReplace, encoded]
    split
    · rename_i here
      rw [here, there]
      rfl
    · rfl

theorem writeBackSound (sound : tree.Sound) (report : FileReport) :
    (writeBack tree report).Sound := by
  unfold writeBack
  split
  · exact FileTree.replaceSound _ _ sound
  · exact sound

theorem writeBackPlaces (tree : FileTree) (report : FileReport) :
    (writeBack tree report).files.map Prod.fst = tree.files.map Prod.fst := by
  unfold writeBack
  split
  · rw [FileTree.filesReplace, List.map_map]
    rfl
  · rfl

theorem writeBackAlike (tree : FileTree) (report : FileReport) (place : Place) :
    ((writeBack tree report).at? place).map FileTree.isDirectory =
      (tree.at? place).map FileTree.isDirectory := by
  unfold writeBack
  split
  · exact FileTree.replaceAlike _ _ _ _
  · rfl

section
variable {found : List Source} {report : FileReport} {place : Place}

theorem writeAllSound (sound : tree.Sound) (reports : List FileReport) :
    (writeAll tree reports).Sound := by
  induction reports generalizing tree with
  | nil => exact sound
  | cons report rest ih => exact ih (writeBackSound sound report)

theorem writeAllPlaces (tree : FileTree) (reports : List FileReport) :
    (writeAll tree reports).files.map Prod.fst = tree.files.map Prod.fst := by
  induction reports generalizing tree with
  | nil => rfl
  | cons report rest ih => exact (ih _).trans (writeBackPlaces tree report)

theorem writeAllAlike (tree : FileTree) (reports : List FileReport) (place : Place) :
    ((writeAll tree reports).at? place).map FileTree.isDirectory =
      (tree.at? place).map FileTree.isDirectory := by
  induction reports generalizing tree with
  | nil => rfl
  | cons report rest ih => exact (ih _).trans (writeBackAlike tree report place)

/- A tree holds what was read of the sources, each of which has a place of its own. -/
structure Holds (tree : FileTree) (found : List Source) : Prop where
  once : (found.map Source.place).Nodup
  there : ∀ source ∈ found, tree.read? source.place = some source.content

theorem Holds.head (holds : Holds tree (source :: found)) :
    tree.read? source.place = some source.content := holds.there source List.mem_cons_self

theorem Holds.next (holds : Holds tree (source :: found)) :
    Holds (writeBack tree (stripFile engine policy source)) found := by
  obtain ⟨apart, once⟩ := List.nodup_cons.mp holds.once
  refine ⟨once, fun other listed => ?_⟩
  have elsewhere : other.place ≠ source.place := fun same =>
    apart (List.mem_map.mpr ⟨other, listed, same⟩)
  rw [writeBackRead holds.head, if_neg elsewhere]
  exact holds.there other (List.mem_cons_of_mem _ listed)

theorem writeAllElsewhere (holds : Holds tree found)
    (elsewhere : ∀ source ∈ found, source.place ≠ place) :
    (writeAll tree (found.map (stripFile engine policy))).read? place = tree.read? place := by
  induction found generalizing tree with
  | nil => rfl
  | cons source rest ih =>
    have next : Holds (writeBack tree (stripFile engine policy source)) rest := holds.next
    rw [List.map_cons, writeAll, List.foldl_cons, ← writeAll,
      ih next fun other listed => elsewhere other (List.mem_cons_of_mem _ listed),
      writeBackRead holds.head, if_neg (Ne.symm (elsewhere source List.mem_cons_self))]

theorem writeAllHere (holds : Holds tree found) (listed : source ∈ found) :
    (writeAll tree (found.map (stripFile engine policy))).read? source.place =
      some (source.rewritten engine policy) := by
  induction found generalizing tree with
  | nil => cases listed
  | cons first rest ih =>
    have next : Holds (writeBack tree (stripFile engine policy first)) rest := holds.next
    rw [List.map_cons, writeAll, List.foldl_cons, ← writeAll]
    rcases List.mem_cons.mp listed with rfl | later
    · have apart := (List.nodup_cons.mp holds.once).1
      rw [writeAllElsewhere next fun other listed same =>
        apart (List.mem_map.mpr ⟨other, listed, same⟩), writeBackRead holds.head, if_pos rfl]
    · exact ih next later

theorem selectedHolds {root : FileTree} (sound : root.Sound) {set : ExcludeSet}
    {target : List Char} (selected : Walk.select root set target = .sources found) :
    Holds root found := by
  have listed := Walk.selectedFiles selected
  constructor
  · have places := listed.map Prod.fst
    rw [List.map_map] at places
    exact (FileTree.filesOnce sound).sublist places
  · intro source among
    exact (FileTree.filesIff sound).mp (listed.subset (List.mem_map_of_mem among))

end

end Run
end CommentStrip
