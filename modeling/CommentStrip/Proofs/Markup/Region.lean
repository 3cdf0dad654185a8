import CommentStrip.Proofs.Markup.Opening
import CommentStrip.Proofs.Replaces
import CommentStrip.Proofs.Text.Seam

/-! Where the regions of a template begin and end: with one of three signs, and inside the text. -/
namespace CommentStrip.Markup
open Unicode Text

theorem lowerOther {mark c : Char} (other : ¬ ('a' ≤ mark ∧ mark ≤ 'z'))
    (same : asciiLower c = mark) : c = mark := by
  unfold asciiLower at same
  split at same
  · rename_i capital
    exfalso
    apply other
    obtain ⟨first, last⟩ := capital
    simp only [Char.le_def, UInt32.le_iff_toNat_le] at first last ⊢
    change 65 ≤ c.toNat at first
    change c.toNat ≤ 90 at last
    have code : mark.toNat = c.toNat + 32 := by
      have valid : (c.toNat + 32).isValidChar := .inl (by omega)
      rw [← same, Char.ofNat, dif_pos valid]
      rfl
    change 97 ≤ mark.toNat ∧ mark.toNat ≤ 122
    omega
  · exact same

theorem signOf {mark : Char} (sign : mark = '<' ∨ mark = '@') {c : Char}
    (same : sameLetter mark c = true) : c = mark := by
  rcases sign with rfl | rfl
  · exact lowerOther (by decide) ((sameLetterPlain (by decide) (by decide)).mp same)
  · exact lowerOther (by decide) ((sameLetterPlain (by decide) (by decide)).mp same)

theorem enclosedHead {o : Char} {opening closing here : List Char} {n : Nat}
    (found : enclosed (o :: opening) closing here = some n) : ∃ rest, here = o :: rest := by
  simp only [enclosed, bind, Option.bind_eq_some_iff] at found
  obtain ⟨inside, opened, -⟩ := found
  exact ⟨opening ++ inside, afterSome.mp opened⟩

def isSign (c : Char) : Prop := c = '<' ∨ c = '@' ∨ c = '{'

theorem matchHead {variant : MarkupVariant} {here : List Char} {region : Region}
    (found : (alternation variant).matchAt here = some region) :
    ∃ c rest, here = c :: rest ∧ isSign c := by
  obtain ⟨branch, known, spoke⟩ := List.exists_of_findSome?_eq_some found
  rw [branchesOf, List.mem_append, List.mem_map, List.mem_map] at known
  rcases known with ⟨kind, -, rfl⟩ | ⟨kind, -, rfl⟩
  · simp only [block, bind, Option.bind_eq_some_iff] at spoke
    obtain ⟨opening, opens, -⟩ := spoke
    obtain ⟨behind, word⟩ := opensWord opens
    cases kind with
    | script | style =>
      obtain ⟨c, rest, rfl, first, -⟩ := afterWordCons word
      exact ⟨c, rest, rfl, .inl (signOf (.inl rfl) first)⟩
    | verbatim | php =>
      obtain ⟨c, rest, rfl, first, -⟩ := afterWordCons word
      exact ⟨c, rest, rfl, .inr (.inl (signOf (.inr rfl) first))⟩
  · simp only [comment, Option.map_eq_some_iff] at spoke
    obtain ⟨extent, spoke, -⟩ := spoke
    cases kind with
    | blade =>
      obtain ⟨rest, rfl⟩ := enclosedHead spoke
      exact ⟨_, rest, rfl, .inr (.inr rfl)⟩
    | html =>
      obtain ⟨rest, rfl⟩ := enclosedHead spoke
      exact ⟨_, rest, rfl, .inl rfl⟩

theorem afterWordLength {word text behind : List Char} (found : afterWord word text = some behind) :
    text.length = word.length + behind.length := by
  induction word generalizing text with
  | nil =>
    cases found
    simp
  | cons w word ih =>
    obtain ⟨c, rest, rfl, -, later⟩ := afterWordCons found
    simp only [List.length_cons, ih later]
    omega

theorem openTagInside {word text : List Char} {n : Nat} (found : openTag word text = some n) :
    n ≤ text.length := by
  simp only [openTag, bind, Option.bind_eq_some_iff] at found
  obtain ⟨behind, read, last⟩ := found
  have long := afterWordLength read
  rw [List.length_cons] at long
  split at last
  · cases last
    omega
  · cases last

theorem closeTagInside {word text : List Char} {n : Nat} (found : closeTag word text = some n) :
    n ≤ text.length := by
  simp only [closeTag, bind, Option.bind_eq_some_iff] at found
  obtain ⟨behind, read, last⟩ := found
  have long := afterWordLength read
  simp only [List.length_cons] at long
  split at last
  · rename_i ends
    cases last
    have more := List.length_pos_iff.mpr (List.ne_nil_of_mem (List.mem_of_mem_head? ends))
    rw [List.length_drop] at more
    omega
  · cases last

theorem keywordInside {word text : List Char} {n : Nat} (found : keyword word text = some n) :
    n ≤ text.length := by
  simp only [keyword, bind, Option.bind_eq_some_iff] at found
  obtain ⟨behind, read, last⟩ := found
  have long := afterWordLength read
  split at last
  · cases last
    omega
  · cases last

theorem opensInside {kind : BlockKind} {text : List Char} {n : Nat}
    (found : kind.opens text = some n) : n ≤ text.length := by
  cases kind with
  | script | style => exact openTagInside found
  | verbatim | php => exact keywordInside found

theorem closesInside {kind : BlockKind} {text : List Char} {n : Nat}
    (found : kind.closes text = some n) : n ≤ text.length := by
  cases kind with
  | script | style => exact closeTagInside found
  | verbatim | php => exact keywordInside found

theorem closesFilled {kind : BlockKind} {text : List Char} {n : Nat}
    (found : kind.closes text = some n) : text ≠ [] := by
  intro empty
  subst empty
  cases kind <;> cases found

theorem enclosedInside {opening closing text : List Char} {n : Nat}
    (found : enclosed opening closing text = some n) : n ≤ text.length := by
  simp only [enclosed, bind, Option.bind_eq_some_iff] at found
  obtain ⟨inside, opened, body, reached, last⟩ := found
  cases last
  obtain rfl := afterSome.mp opened
  rw [List.length_append]
  exact Nat.add_le_add_left (throughLength reached).2 _

theorem matchInside (variant : MarkupVariant) : (alternation variant).Inside := by
  intro here region found
  show region.width ≤ here.length
  obtain ⟨branch, known, spoke⟩ := List.exists_of_findSome?_eq_some found
  rw [branchesOf, List.mem_append, List.mem_map, List.mem_map] at known
  rcases known with ⟨kind, -, rfl⟩ | ⟨kind, -, rfl⟩
  · simp only [block, bind, Option.bind_eq_some_iff] at spoke
    obtain ⟨opening, opens, ⟨body, closing⟩, closed, last⟩ := spoke
    cases last
    have stop := firstWhereHolds closed
    have begun := opensInside opens
    have ended := closesInside stop
    have more := List.length_pos_iff.mpr (closesFilled stop)
    simp only [List.length_drop] at ended more
    simp only [Region.width]
    omega
  · simp only [comment, Option.map_eq_some_iff] at spoke
    obtain ⟨extent, spoke, rfl⟩ := spoke
    cases kind with
    | blade | html => exact enclosedInside spoke

end CommentStrip.Markup
