import CommentStrip.Proofs.FileTree

/-! Paths and the places that they lead to. -/
namespace CommentStrip

namespace Text

theorem cutAtAppend (mark : Char) (left right : List Char) :
    cutAt mark (left ++ mark :: right) = cutAt mark left ++ cutAt mark right := by
  induction left with
  | nil => simp [cutAt]
  | cons c rest ih =>
    rw [List.cons_append, cutAt, cutAt, ih]
    split
    · rfl
    · obtain ⟨part, later, cut⟩ := List.exists_cons_of_ne_nil (cutAtNonempty mark rest)
      rw [cut]
      rfl

theorem cutAtPlain {mark : Char} {text : List Char} (plain : mark ∉ text) :
    cutAt mark text = [text] := by
  induction text with
  | nil => rfl
  | cons c rest ih =>
    obtain ⟨other, plain⟩ := not_or.mp (mt List.mem_cons.mpr plain)
    rw [cutAt, if_neg (Ne.symm other), ih plain]

end Text

namespace FileTree
open Text
variable {root : FileTree} {place : Place} {entries : List (List Char × FileTree)}
  {path name : List Char} {tree : FileTree}

theorem atBelow (there : root.at? place = some (.directory entries)) (name : List Char) :
    root.at? (place ++ [name]) = entries.lookup name := by
  induction place generalizing root with
  | nil =>
    cases there
    rw [List.nil_append, at?, FileTree.entries]
    cases entries.lookup name <;> rfl
  | cons first more ih =>
    rw [at?] at there
    rw [List.cons_append, at?]
    cases found : root.entries.lookup first with
    | none => simp [found] at there
    | some below =>
      rw [found] at there
      exact ih there

theorem soundAt (sound : root.Sound) (there : root.at? place = some tree) : tree.Sound := by
  induction place generalizing root with
  | nil =>
    cases there
    exact sound
  | cons first more ih =>
    rw [at?] at there
    cases found : root.entries.lookup first with
    | none => simp [found] at there
    | some next =>
      rw [found] at there
      cases sound with
      | file => simp [FileTree.entries] at found
      | directory ordered steps below =>
        exact ih (below _ ((lookupIff (orderedOnce ordered)).mp found)) there

theorem followAlike {a b : FileTree}
    (alike : ∀ place, (a.at? place).map isDirectory = (b.at? place).map isDirectory)
    (here : Place) (parts : List (List Char)) : follow a here parts = follow b here parts := by
  induction parts generalizing here with
  | nil => rfl
  | cons part rest ih =>
    have isThere (place : Place) : (a.at? place).isSome = (b.at? place).isSome := by
      rw [← Option.isSome_map (f := isDirectory), alike, Option.isSome_map]
    have same := alike here
    rw [follow, follow]
    cases atA : a.at? here with
    | none =>
      rw [atA] at same
      rw [Option.map_eq_none_iff.mp same.symm]
    | some x =>
      rw [atA] at same
      obtain ⟨y, atB, kind⟩ := Option.map_eq_some_iff.mp same.symm
      rw [atB]
      cases x <;> cases y <;> simp only [isDirectory, reduceCtorEq] at kind
      · rfl
      · have known := isThere (here ++ [part])
        simp only [ih]
        cases atA : a.at? (here ++ [part]) <;> cases atB : b.at? (here ++ [part]) <;>
          simp only [atA, atB, Option.isSome_some, Option.isSome_none, reduceCtorEq] at known ⊢

theorem locateAlike {a b : FileTree}
    (alike : ∀ place, (a.at? place).map isDirectory = (b.at? place).map isDirectory)
    (path : List Char) : a.locate? path = b.locate? path := by
  rw [locate?, locate?, followAlike alike]

theorem followAppend (root : FileTree) (here : Place) (parts more : List (List Char)) :
    follow root here (parts ++ more) =
      (follow root here parts).bind fun there => follow root there more := by
  induction parts generalizing here with
  | nil => rfl
  | cons part rest ih =>
    rw [List.cons_append, follow, follow]
    split
    · split
      · exact ih here
      · exact ih _
      · split
        · exact ih _
        · rfl
    · rfl

theorem followStep (there : root.at? place = some (.directory entries)) (step : IsStep name)
    (listed : entries.lookup name = some tree) : follow root place [name] = some (place ++ [name]) := by
  rw [follow, there]
  simp only [step.1]
  rw [atBelow there, listed]
  rfl

theorem locateJoin (located : root.locate? path = some place)
    (there : root.at? place = some (.directory entries)) (step : IsStep name)
    (listed : entries.lookup name = some tree) :
    root.locate? (Path.join path name) = some (place ++ [name]) := by
  rw [locate?] at located
  split at located
  · cases located
  · rename_i present
    -- a slash in the end gives one more part, which stays where it is
    have led (before : List Char) (led : follow root [] (cutAt '/' before) = some place)
        (same : Path.join path name = before ++ '/' :: name) :
        root.locate? (Path.join path name) = some (place ++ [name]) := by
      rw [same, locate?, if_neg (List.append_ne_nil_of_right_ne_nil _ (List.cons_ne_nil _ _)),
        cutAtAppend, cutAtPlain step.2, followAppend, led]
      exact followStep there step listed
    by_cases slash : path.getLast? = some '/'
    · obtain ⟨before, rfl⟩ := List.getLast?_eq_some_iff.mp slash
      rw [cutAtAppend, followAppend] at located
      obtain ⟨place', led', stays⟩ := Option.bind_eq_some_iff.mp located
      have same : place' = place := by
        rw [cutAt, follow] at stays
        split at stays
        · exact Option.some.inj stays
        · cases stays
      subst same
      refine led before led' ?_
      rw [Path.join, if_pos (.inr slash), List.append_assoc, List.singleton_append]
    · exact led path located (by rw [Path.join, if_neg (not_or.mpr ⟨present, slash⟩)])

end FileTree
end CommentStrip
