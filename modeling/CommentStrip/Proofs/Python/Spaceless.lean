import CommentStrip.Proofs.Python.TokenForms
import CommentStrip.Proofs.Text.Trim

/-! Which parts of a text that is Python are no white space. White space that is not ASCII counts
as a character of names, so that a name may have some, but no number and no prefix has. -/
namespace CommentStrip.Python
open Unicode Text

theorem whiteOther {c d : Char} (white : isWhite c = true) (solid : isWhite d = false) : c ≠ d := by
  rintro rfl
  rw [solid] at white
  cases white

section
variable {c : Char}

theorem quoteSolid (quote : isQuote c = true) : isWhite c = false := by
  rcases quoteOne quote with rfl | rfl <;> decide

theorem quoteNotName (quote : isQuote c = true) : isNameChar c = false := by
  rcases quoteOne quote with rfl | rfl <;> rfl

theorem bracketSolid (bracket : isOpening c = true ∨ isClosing c = true) : isWhite c = false := by
  simp only [isOpening, isClosing, Bool.or_eq_true, beq_iff_eq] at bracket
  rcases bracket with ((rfl | rfl) | rfl) | ((rfl | rfl) | rfl) <;> decide

theorem alnumSolid (alnum : c.isAlphanum = true) : isWhite c = false := by
  rw [Bool.eq_false_iff]
  intro white
  delta Char.isAlphanum Char.isAlpha Char.isUpper Char.isLower Char.isDigit at alnum
  simp [isWhite, within, whiteRanges, UInt32.le_iff_toNat_le] at alnum white
  omega

theorem numberSolid {hex : Bool} {previous : Char} (number : numberChar hex previous c = true) :
    isWhite c = false := by
  simp only [numberChar, Bool.or_eq_true, Bool.and_eq_true, beq_iff_eq] at number
  rcases number with ((alnum | rfl) | rfl) | ⟨⟨rfl | rfl, -⟩, -⟩
  · exact alnumSolid alnum
  all_goals decide

theorem startSolid {rest : List Char} (first : startsNumber c rest = true) : isWhite c = false := by
  simp only [startsNumber, Bool.or_eq_true, Bool.and_eq_true, beq_iff_eq] at first
  rcases first with digit | ⟨rfl, -⟩
  · exact alnumSolid (by rw [Char.isAlphanum, digit, Bool.or_true])
  · decide

theorem lowerOther (other : c.toNat < 65 ∨ 90 < c.toNat) : asciiLower c = c := by
  rw [asciiLower, if_neg]
  rintro ⟨above, below⟩
  have above : 65 ≤ c.toNat := Char.le_def.mp above
  have below : c.toNat ≤ 90 := Char.le_def.mp below
  omega

theorem whiteLower (white : isWhite c = true) : asciiLower c = c := by
  refine lowerOther ?_
  simp [isWhite, within, whiteRanges] at white
  omega

theorem digitLower (digit : c.isDigit = true) : asciiLower c = c := by
  refine lowerOther (.inl ?_)
  simp [Char.isDigit, UInt32.le_iff_toNat_le] at digit
  have : c.toNat ≤ 57 := digit.2
  omega

end

theorem prefixEach {p : Char → Bool} (lower : ∀ c, p c = true → asciiLower c = c)
    (none : ['r', 'b', 'u', 'f'].all (!p ·) = true) {word : List Char}
    (letters : isStringPrefix word = true) : ∀ c ∈ word, p c = false := by
  intro c inside
  have all : stringPrefixes.all (·.all (['r', 'b', 'u', 'f'].contains ·)) = true := by decide
  have known := List.all_eq_true.mp all _ (List.contains_iff_mem.mp letters)
  have letter := List.all_eq_true.mp known _ (List.mem_map_of_mem inside)
  rw [Bool.eq_false_iff]
  intro holds
  rw [lower c holds] at letter
  have other := List.all_eq_true.mp none c (List.contains_iff_mem.mp letter)
  rw [holds] at other
  cases other

theorem prefixSolid {word : List Char} (letters : isStringPrefix word = true) :
    ∀ c ∈ word, isWhite c = false := prefixEach (fun _ => whiteLower) (by decide) letters

theorem prefixDigitless {word : List Char} (letters : isStringPrefix word = true) :
    ∀ c ∈ word, c.isDigit = false := prefixEach (fun _ => digitLower) (by decide) letters

theorem nameOnRow {word : List Char} (names : ∀ c ∈ word, isNameChar c = true) : '\n' ∉ word :=
  fun inside => nameOther (names _ inside) rfl rfl

end CommentStrip.Python
