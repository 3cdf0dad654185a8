import CommentStrip.Run.Setup

/-! Extensions as users write them, and the families of files with such extensions. -/
namespace CommentStrip
open Unicode

namespace Unicode

theorem asciiLowerAscii {c : Char} (known : isAscii (asciiLower c) = true) : isAscii c = true := by
  unfold asciiLower at known
  split at known
  · rename_i capital
    have below : c.toNat ≤ 'Z'.toNat := Char.le_def.mp capital.2
    have last : 'Z'.toNat = 90 := rfl
    exact decide_eq_true (by omega)
  · exact known

theorem shiftedAscii {c : Char} (plain : isAscii c = true) :
    shifted lowerShifts c = asciiLower c := by
  have all : ∀ n < 128, shifted lowerShifts (Char.ofNat n) = asciiLower (Char.ofNat n) := by
    decide +kernel
  have known := all c.toNat (of_decide_eq_true plain)
  rwa [Char.ofNat_toNat] at known

theorem lowerPlain (before rest : List Char) {c : Char} (dotted : c ≠ 'İ') (sigma : c ≠ 'Σ') :
    lowerFrom before (c :: rest) = shifted lowerShifts c :: lowerFrom (c :: before) rest := by
  rw [lowerFrom]
  · exact dotted
  · exact sigma

theorem lowerAscii (before : List Char) {text : List Char} (plain : ∀ c ∈ text, isAscii c = true) :
    lowerFrom before text = text.map asciiLower := by
  induction text generalizing before with
  | nil => rfl
  | cons c rest ih =>
    have here := plain c List.mem_cons_self
    have later := fun d listed => plain d (List.mem_cons_of_mem c listed)
    have other {d : Char} (wide : isAscii d = false) : c ≠ d := fun same => by
      rw [same, wide] at here
      cases here
    rw [lowerPlain before rest (other rfl) (other rfl), shiftedAscii here, ih _ later]
    rfl

theorem shiftedNoDot {c : Char} (other : c ≠ '.') : shifted lowerShifts c ≠ '.' := by
  have above : ∀ s ∈ lowerShifts, (46 : Int) < s.first + s.distance := by decide +kernel
  unfold shifted
  cases found : lowerShifts.find? (·.covers c.toNat) with
  | none => exact other
  | some s =>
    have covered := List.find?_some found
    have far := above s (List.mem_of_find?_eq_some found)
    simp only [Shift.covers, Bool.and_eq_true, decide_eq_true_eq] at covered
    have beyond : 46 < s.target c.toNat := by
      unfold Shift.target
      omega
    intro same
    have code : (Char.ofNat (s.target c.toNat)).toNat = 46 := congrArg Char.toNat same
    unfold Char.ofNat at code
    by_cases valid : (s.target c.toNat).isValidChar
    · rw [dif_pos valid] at code
      have number : s.target c.toNat = 46 := code
      omega
    · rw [dif_neg valid] at code
      cases code

theorem lowerStep (before rest : List Char) {c : Char} (other : c ≠ '.') :
    ∃ low, lowerFrom before (c :: rest) = low ++ lowerFrom (c :: before) rest ∧
      low ≠ [] ∧ '.' ∉ low := by
  by_cases dotted : c = 'İ'
  · subst dotted
    exact ⟨['i', '\u0307'], rfl, List.cons_ne_nil _ _, by decide⟩
  by_cases sigma : c = 'Σ'
  · subst sigma
    refine ⟨[if closesWord before rest then 'ς' else 'σ'], rfl, List.cons_ne_nil _ _, ?_⟩
    split <;> decide
  · exact ⟨[shifted lowerShifts c], lowerPlain before rest dotted sigma, List.cons_ne_nil _ _,
      mt List.mem_singleton.mp (Ne.symm (shiftedNoDot other))⟩

theorem lowerStem (before : List Char) {stem : List Char} (rest : List Char) (dotless : '.' ∉ stem) :
    ∃ low, lowerFrom before (stem ++ rest) = low ++ lowerFrom (stem.reverse ++ before) rest ∧
      (stem ≠ [] → low ≠ []) ∧ '.' ∉ low := by
  induction stem generalizing before with
  | nil => exact ⟨[], rfl, fun present => present, List.not_mem_nil⟩
  | cons c stem ih =>
    obtain ⟨other, dotless⟩ := not_or.mp (mt List.mem_cons.mpr dotless)
    obtain ⟨head, first, present, plain⟩ := lowerStep before (stem ++ rest) (Ne.symm other)
    obtain ⟨low, later, -, plain'⟩ := ih (c :: before) dotless
    refine ⟨head ++ low, ?_, fun _ => List.append_ne_nil_of_left_ne_nil present low, ?_⟩
    · rw [List.cons_append, first, later, List.append_assoc, List.reverse_cons, List.append_assoc]
      rfl
    · exact mt List.mem_append.mp (not_or.mpr ⟨plain, plain'⟩)

end Unicode

/- An extension as users write it: dots in front, and capital letters for small ones. -/
inductive Spelled (extension : String) : List Char → Prop
  | dots (count : Nat) (letters : List Char) (same : letters.map asciiLower = extension.toList) :
      Spelled extension (List.replicate count '.' ++ letters)

namespace Family

theorem tableKnown {entry : String × Family} (listed : entry ∈ table) :
    ofExtension? entry.1 = some entry.2 ∧ entry.1.toList.all isAscii = true ∧
      entry.1.toList.head? ≠ some '.' ∧ (entry.1 = "blade.php" ∨ '.' ∉ entry.1.toList) := by
  revert entry
  decide +kernel

end Family

namespace Path

theorem lastPart {front extension : List Char} (dotless : '.' ∉ extension) :
    ((front ++ '.' :: extension).reverse.takeWhile (· != '.')).reverse = extension := by
  rw [List.reverse_append, List.reverse_cons, List.append_assoc,
    List.takeWhile_append_of_pos, List.singleton_append, List.takeWhile_cons_of_neg,
    List.append_nil, List.reverse_reverse]
  · simp
  · intro c listed
    have other : c ≠ '.' := fun same => dotless (same ▸ List.mem_reverse.mp listed)
    exact bne_iff_ne.mpr other

theorem lastSuffixRead {front extension : List Char} (present : front ≠ [])
    (dotless : '.' ∉ extension) :
    lastSuffix? (front ++ '.' :: extension) = some extension := by
  rw [lastSuffix?, lastPart dotless]
  refine if_pos ?_
  have := List.length_pos_iff.mpr present
  rw [List.length_append, List.length_cons]
  omega

theorem notBlade {low extension : List Char} {count : Nat} (nameless : '.' ∉ low)
    (dotless : '.' ∉ extension) :
    ¬bladeSuffix <:+ low ++ List.replicate count '.' ++ '.' :: extension := by
  rintro ⟨front, same⟩
  have split : front ++ ".blade".toList ++ '.' :: "php".toList =
      low ++ List.replicate count '.' ++ '.' :: extension := by
    rw [← same, List.append_assoc]
    rfl
  have last : "php".toList = extension := by
    rw [← lastPart dotless, ← split]
    exact (lastPart (by decide)).symm
  subst last
  have begun := List.append_cancel_right split
  cases count with
  | zero =>
    rw [List.replicate_zero, List.append_nil] at begun
    exact nameless (begun ▸ List.mem_append_right _ (by decide))
  | succ count =>
    have ends := congrArg List.getLast? begun
    rw [List.replicate_succ', ← List.append_assoc, List.getLast?_concat, List.getLast?_append]
      at ends
    cases ends

theorem familySpelled {extension : String} {family : Family}
    (listed : (extension, family) ∈ Family.table) {written : List Char}
    (spelled : Spelled extension written) {path stem : List Char} (present : stem ≠ [])
    (dotless : '.' ∉ stem) (named : fileName? path = some (stem ++ '.' :: written)) :
    family? path = some family := by
  obtain ⟨known, plain, -, inner⟩ := Family.tableKnown listed
  obtain ⟨count, letters, same⟩ := spelled
  obtain ⟨low, lowered, kept, nameless⟩ :=
    lowerStem [] ('.' :: (List.replicate count '.' ++ letters)) dotless
  have ascii : ∀ c ∈ '.' :: (List.replicate count '.' ++ letters), isAscii c = true := by
    intro c among
    rcases List.mem_cons.mp among with rfl | among
    · rfl
    rcases List.mem_append.mp among with dot | letter
    · rw [List.eq_of_mem_replicate dot]
      rfl
    · refine asciiLowerAscii (List.all_eq_true.mp plain _ ?_)
      rw [← same]
      exact List.mem_map_of_mem letter
  have name : lower (stem ++ '.' :: (List.replicate count '.' ++ letters)) =
      low ++ List.replicate count '.' ++ '.' :: extension.toList := by
    rw [lower, lowered, lowerAscii _ ascii, List.map_cons, List.map_append, same,
      List.map_replicate, show asciiLower '.' = '.' from rfl, ← List.cons_append,
      ← List.replicate_succ, List.replicate_succ', List.append_assoc, List.append_assoc]
    rfl
  have found : extension? path = some extension.toList := by
    rw [extension?, named]
    simp only [Option.bind_eq_bind, Option.bind_some, name]
    rcases inner with rfl | inner
    · refine if_pos (List.isSuffixOf_iff_suffix.mpr ?_)
      exact List.suffix_append _ _
    · rw [if_neg (mt List.isSuffixOf_iff_suffix.mp (notBlade nameless inner))]
      exact lastSuffixRead (List.append_ne_nil_of_left_ne_nil (kept present) _) inner
  rw [family?, found]
  simpa using known

end Path

namespace Run

theorem familySpelled {extension : String} {family : Family}
    (listed : (extension, family) ∈ Family.table) {written : List Char}
    (spelled : Spelled extension written) : family? written = some family := by
  obtain ⟨known, -, dotless, -⟩ := Family.tableKnown listed
  obtain ⟨count, letters, same⟩ := spelled
  have kept : letters.dropWhile (· == '.') = letters := by
    cases letters with
    | nil => rfl
    | cons c rest =>
      refine List.dropWhile_cons_of_neg fun dot => dotless ?_
      rw [← same, eq_of_beq dot]
      rfl
  rw [family?, List.dropWhile_append_of_pos, kept, same, String.ofList_toList]
  · exact known
  · simp

end Run
end CommentStrip
