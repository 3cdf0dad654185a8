import CommentStrip.Markup.Branch
import CommentStrip.Pattern.Syntax
import CommentStrip.Proofs.Markup.Region

/-! Letters of a keyword up to case. The scanner compares with the small ASCII letter and with two
letters outside ASCII; for keywords in ASCII that is the case folding of all of Unicode. -/
namespace CommentStrip.Markup
open Unicode Text Pattern

/- One shift moves the capital letters of ASCII. All others begin above ASCII, and only two of them
lead back into it. -/
def staysAbove (s : Shift) : Bool :=
  s == ⟨0x41, 0x5A, 1, 32⟩ || (127 < s.first &&
    (127 < (s.first : Int) + s.distance || s == ⟨0x17F, 0x17F, 1, -268⟩ ||
      s == ⟨0x212A, 0x212A, 1, -8383⟩))

theorem shiftsStay : foldShifts.all staysAbove = true := by decide +kernel

theorem coversWithin {s : Shift} {n : Nat} (covers : s.covers n = true) :
    s.first ≤ n ∧ n ≤ s.last := by
  simp only [Shift.covers, Bool.and_eq_true, decide_eq_true_eq] at covers
  exact covers.1

theorem ofNatCode {n : Nat} {c : Char} (same : Char.ofNat n = c) (filled : c ≠ '\x00') :
    n = c.toNat := by
  subst same
  by_cases valid : n.isValidChar
  · rw [Char.ofNat, dif_pos valid]
    rfl
  · exact absurd (by rw [Char.ofNat, dif_neg valid]; rfl) filled

theorem capitalCode {c : Char} : ('A' ≤ c ∧ c ≤ 'Z') ↔ 0x41 ≤ c.toNat ∧ c.toNat ≤ 0x5A := by
  simp only [Char.le_def, UInt32.le_iff_toNat_le]
  rfl

theorem sameFolds {w c : Char} (same : sameLetter w c = true) : c = w ∨ fold c = w := by
  simp only [sameLetter, Bool.or_eq_true, Bool.and_eq_true, beq_iff_eq] at same
  rcases same with (lower | ⟨rfl, rfl⟩) | ⟨rfl, rfl⟩
  · by_cases capital : 'A' ≤ c ∧ c ≤ 'Z'
    · rw [asciiLower, if_pos capital] at lower
      refine .inr ?_
      have covers : Shift.covers ⟨0x41, 0x5A, 1, 32⟩ c.toNat = true := by
        have range := capitalCode.mp capital
        simp [Shift.covers, range, Nat.mod_one]
      have found : foldShifts.find? (·.covers c.toNat) = some ⟨0x41, 0x5A, 1, 32⟩ :=
        List.find?_cons_of_pos covers
      rw [fold, shifted, found]
      exact lower
    · rw [asciiLower, if_neg capital] at lower
      exact .inl lower
  · exact .inr (by decide +kernel)
  · exact .inr (by decide +kernel)

def isSmall (w : Char) : Prop := w.toNat < 128 ∧ w ≠ '\x00' ∧ ¬ ('A' ≤ w ∧ w ≤ 'Z')

instance (w : Char) : Decidable (isSmall w) := inferInstanceAs (Decidable (_ ∧ _ ∧ _))

theorem eachLetter {p : Char → Prop} [DecidablePred p] {word : List Char}
    (all : word.all (fun w => decide (p w)) = true) : ∀ w ∈ word, p w := by
  simpa using all

section
variable {w : Char} (isOne : isSmall w)
include isOne

theorem foldSame {c : Char} (same : fold c = w) : sameLetter w c = true := by
  obtain ⟨ascii, filled, small⟩ := isOne
  unfold fold shifted at same
  cases found : foldShifts.find? (·.covers c.toNat) with
  | none =>
    rw [found] at same
    have plain : asciiLower c = w := by
      simp only at same
      rw [same, asciiLower, if_neg small]
    simp [sameLetter, plain]
  | some s =>
    rw [found] at same
    simp only at same
    have known := List.all_eq_true.mp shiftsStay s (List.mem_of_find?_eq_some found)
    have covered : s.covers c.toNat = true := by simpa using List.find?_some found
    have covers := coversWithin covered
    have code := ofNatCode same filled
    simp only [staysAbove, Bool.or_eq_true, Bool.and_eq_true, beq_iff_eq, decide_eq_true_eq] at known
    simp only [Shift.target] at code same
    rcases known with rfl | ⟨-, (above | rfl) | rfl⟩
    · have capital := capitalCode.mpr covers
      have lower : asciiLower c = w := by
        rw [asciiLower, if_pos capital]
        exact same
      simp [sameLetter, lower]
    · omega
    · obtain rfl : c = 'ſ' := Char.toNat_inj.mp (Nat.le_antisymm covers.2 covers.1)
      rw [← same]
      rfl
    · obtain rfl : c = '\u212a' := Char.toNat_inj.mp (Nat.le_antisymm covers.2 covers.1)
      rw [← same]
      rfl

theorem classSame {c : Char} (member : w ∈ caseClass c) : fold c = w := by
  obtain ⟨ascii, filled, small⟩ := isOne
  rcases List.mem_cons.mp member with same | other
  · exact same.symm
  · exfalso
    obtain ⟨s, listed, reached⟩ := List.mem_filterMap.mp other
    obtain ⟨n, origin, same⟩ := Option.map_eq_some_iff.mp reached
    have code := ofNatCode same filled
    have known := List.all_eq_true.mp shiftsStay s listed
    have covers : s.first ≤ n ∧ n ≤ s.last := by
      simp only [Shift.origin] at origin
      split at origin
      · rename_i both
        cases origin
        exact coversWithin (Bool.and_eq_true_iff.mp both).2
      · cases origin
    rw [capitalCode] at small
    simp only [staysAbove, Bool.or_eq_true, Bool.and_eq_true, beq_iff_eq, decide_eq_true_eq] at known
    rcases known with rfl | ⟨above, -⟩
    · simp only at covers
      omega
    · omega

theorem foldedLetter (c : Char) : (CharSet.folded (.single w)).mem c = sameLetter w c := by
  rw [Bool.eq_iff_iff]
  simp only [CharSet.mem, Bool.or_eq_true, List.any_eq_true, CharSet.memSingle]
  constructor
  · rintro (rfl | ⟨d, inside, rfl⟩)
    · simp [sameLetter, asciiLower, isOne.2.2]
    · exact foldSame isOne (classSame isOne inside)
  · intro same
    rcases sameFolds same with rfl | folds
    · exact .inl rfl
    · exact .inr ⟨w, by rw [← folds]; exact List.mem_cons_self, rfl⟩

end

end CommentStrip.Markup
