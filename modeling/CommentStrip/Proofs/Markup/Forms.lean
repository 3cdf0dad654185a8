import CommentStrip.Proofs.CStyle.LiteralForms
import CommentStrip.Proofs.Markup.Folding

/-! The regular expressions of the regions of a template, as the documentation of the scanner gives
them, and that the scanner reads the regions as these match. All letters stand for themselves up to
case, and a point stands for any character. -/
namespace CommentStrip.Markup
open Unicode Text Pattern

inductive Form where
  | empty
  | plain (e : Expression)
  | look (condition : Look)
  | seq (first second : Form)

namespace Form

def ends : Form → (before text : List Char) → List Nat
  | .empty, _, _ => [0]
  | .plain e, _, text => e.ends text
  | .look condition, before, text => if condition.holds before.head? text.head? then [0] else []
  | .seq first second, before, text =>
    (first.ends before text).flatMap fun n =>
      (second.ends ((text.take n).reverse ++ before) (text.drop n)).map (n + ·)

def extent (form : Form) (before text : List Char) : Option Nat := (form.ends before text).head?

def letter (w : Char) : Expression := .one (CharSet.folded (.single w)).mem

def but (w : Char) : Expression := .one (CharSet.compl (.folded (.single w))).mem

def letters (word : List Char) (last : Form) : Form :=
  word.foldr (fun w form => .seq (.plain (letter w)) form) last

def edge : Form := .look (.wordEdge true)

def anything : Form := .plain (.star false CStyle.Form.anything)

def openTag (word : List Char) : Form :=
  letters ('<' :: word) (.seq edge (.plain (.seq (.star true (but '>')) (letter '>'))))

def closeTag (word : List Char) : Form :=
  letters ('<' :: '/' :: word) (.plain (.seq CStyle.Form.space (letter '>')))

def keyword (word : List Char) : Form := letters word edge

def enclosed (opening closing : List Char) : Form :=
  letters opening (.seq anything (letters closing .empty))

end Form

def BlockKind.opening : BlockKind → Form
  | .script => Form.openTag "script".toList
  | .style => Form.openTag "style".toList
  | .verbatim => Form.keyword "@verbatim".toList
  | .php => Form.keyword "@php".toList

def BlockKind.closing : BlockKind → Form
  | .script => Form.closeTag "script".toList
  | .style => Form.closeTag "style".toList
  | .verbatim => Form.keyword "@endverbatim".toList
  | .php => Form.keyword "@endphp".toList

def CommentKind.form : CommentKind → Form
  | .blade => Form.enclosed ['{', '{', '-', '-'] ['-', '-', '}', '}']
  | .html => Form.enclosed ['<', '!', '-', '-'] ['-', '-', '>']

def formOf : BlockKind ⊕ CommentKind → Form
  | .inl kind => .seq kind.opening (.seq Form.anything kind.closing)
  | .inr kind => kind.form

theorem afterWordLast {word text behind : List Char} {w : Char}
    (found : afterWord (word ++ [w]) text = some behind) :
    ∃ read c, text = read ++ c :: behind ∧ read.length = word.length ∧ sameLetter w c = true := by
  induction word generalizing text with
  | nil =>
    obtain ⟨c, rest, rfl, same, last⟩ := afterWordCons found
    cases last
    exact ⟨[], c, rfl, rfl, same⟩
  | cons v word ih =>
    obtain ⟨d, rest, rfl, -, found⟩ := afterWordCons found
    obtain ⟨read, c, rfl, long, same⟩ := ih found
    exact ⟨d :: read, c, rfl, congrArg Nat.succ long, same⟩

theorem wordRange {c : Char} (inside : (0x41 ≤ c.toNat ∧ c.toNat ≤ 0x5A) ∨
    (0x61 ≤ c.toNat ∧ c.toNat ≤ 0x7A)) : isWord c = true := by
  have ranges : wordRanges = (0x30, 0x39) :: (0x41, 0x5A) :: (0x5F, 0x5F) :: (0x61, 0x7A) ::
      wordRanges.drop 4 := rfl
  rw [isWord, ranges]
  simp only [within]
  grind

theorem letterWord {w c : Char} (isLetter : 'a' ≤ w ∧ w ≤ 'z') (same : sameLetter w c = true) :
    isWord c = true := by
  simp only [sameLetter, Bool.or_eq_true, Bool.and_eq_true, beq_iff_eq] at same
  rcases same with (lower | ⟨-, rfl⟩) | ⟨-, rfl⟩
  · by_cases capital : 'A' ≤ c ∧ c ≤ 'Z'
    · exact wordRange (.inl (capitalCode.mp capital))
    · rw [asciiLower, if_neg capital] at lower
      subst lower
      simp only [Char.le_def, UInt32.le_iff_toNat_le] at isLetter
      exact wordRange (.inr isLetter)
  · decide +kernel
  · decide +kernel

namespace Form

theorem seqEnds (first second : Form) (before text : List Char) :
    (seq first second).ends before text = (first.ends before text).flatMap fun n =>
      (second.ends ((text.take n).reverse ++ before) (text.drop n)).map (n + ·) := rfl

theorem letterEnds {w : Char} (isOne : isSmall w) (c : Char) (rest : List Char) :
    (letter w).ends (c :: rest) = if sameLetter w c then [1] else [] := by
  rw [letter, Expression.ends, foldedLetter isOne]

theorem lettersEnds {word : List Char} (small : ∀ w ∈ word, isSmall w) (last : Form)
    (before text : List Char) : (letters word last).ends before text =
      match afterWord word text with
      | some behind =>
        (last.ends ((text.take word.length).reverse ++ before) behind).map (word.length + ·)
      | none => [] := by
  induction word generalizing before text with
  | nil => simp [letters, afterWord]
  | cons w word ih =>
    obtain ⟨isOne, others⟩ := List.forall_mem_cons.mp small
    cases text with
    | nil => rfl
    | cons c rest =>
      have one : (plain (letter w)).ends before (c :: rest) = if sameLetter w c then [1] else [] :=
        letterEnds isOne c rest
      have step : letters (w :: word) last = seq (plain (letter w)) (letters word last) := rfl
      rw [step, seqEnds, one, afterWord]
      by_cases same : sameLetter w c = true
      · rw [if_pos same, if_pos same, List.flatMap_singleton, List.drop_one, List.tail_cons,
          ih others]
        cases afterWord word rest with
        | none => rfl
        | some behind => simp [Function.comp_def, Nat.add_comm, Nat.add_assoc]
      · rw [if_neg same, if_neg same]
        rfl

theorem edgeEnds {word : List Char} {w : Char} (isLetter : 'a' ≤ w ∧ w ≤ 'z')
    {text behind : List Char} (found : afterWord (word ++ [w]) text = some behind)
    (before : List Char) :
    edge.ends ((text.take (word ++ [w]).length).reverse ++ before) behind =
      if atWordEnd behind then [0] else [] := by
  obtain ⟨read, c, rfl, long, same⟩ := afterWordLast found
  have passed : (read ++ c :: behind).take (word ++ [w]).length = read ++ [c] := by
    have whole : (word ++ [w]).length = (read ++ [c]).length := by simp [long]
    rw [whole, List.append_cons read c behind, List.take_left]
  have isWordBefore := letterWord isLetter same
  rw [passed, edge, ends, Look.holds, List.reverse_append]
  simp [Look.isWordAt, isWordBefore, atWordEnd]

section
variable {w : Char} (isOne : isSmall w) (sign : ¬ ('a' ≤ w ∧ w ≤ 'z'))
include isOne sign

theorem sameSign (c : Char) : sameLetter w c = (c == w) := by
  have notS : w ≠ 's' := by
    rintro rfl
    exact sign (by decide)
  have notK : w ≠ 'k' := by
    rintro rfl
    exact sign (by decide)
  rw [Bool.eq_iff_iff, sameLetterPlain notS notK, beq_iff_eq]
  constructor
  · exact lowerOther sign
  · rintro rfl
    rw [asciiLower, if_neg isOne.2.2]

theorem letterSign : letter w = .char w := by
  rw [letter, Expression.char]
  congr 1
  funext c
  rw [foldedLetter isOne, sameSign isOne sign]

theorem butSign : but w = .one (· != w) := by
  rw [but]
  congr 1
  funext c
  rw [CharSet.mem, foldedLetter isOne, sameSign isOne sign]
  rfl

end

theorem attributesEnds (text : List Char) :
    (Expression.seq (.star true (but '>')) (letter '>')).ends text =
      if (text.takeWhile (· != '>')).length = text.length then []
      else [(text.takeWhile (· != '>')).length + 1] := by
  have apart : ∀ c rest, (c != '>') = true → (Expression.char '>').ends (c :: rest) = [] := by
    intro c rest other
    rw [CStyle.Form.charEnds, if_neg (by simpa using other)]
  rw [butSign (by decide) (by decide), letterSign (by decide) (by decide),
    Expression.runSeqEnds apart, CStyle.Form.stopEnds]
  split <;> rfl

theorem openTagEnds {word : List Char} {w : Char} (small : ∀ v ∈ word ++ [w], isSmall v)
    (isLetter : 'a' ≤ w ∧ w ≤ 'z') (before text : List Char) :
    (openTag (word ++ [w])).ends before text = (Markup.openTag (word ++ [w]) text).toList := by
  have small : ∀ v ∈ '<' :: (word ++ [w]), isSmall v := List.forall_mem_cons.mpr ⟨by decide, small⟩
  rw [openTag, lettersEnds small, Markup.openTag]
  simp only [bind, Option.bind]
  cases found : afterWord ('<' :: (word ++ [w])) text with
  | none => rfl
  | some behind =>
    have edged := @edgeEnds ('<' :: word) w isLetter text behind found before
    have within : (behind.takeWhile (· != '>')).length ≤ behind.length :=
      (List.takeWhile_prefix _).length_le
    simp only [seqEnds, ← List.cons_append, edged]
    by_cases alone : atWordEnd behind = true
    · simp only [alone, if_true, List.flatMap_singleton, List.drop_zero, ends, attributesEnds]
      by_cases none : (behind.takeWhile (· != '>')).length = behind.length
      · simp [none]
      · have more : (behind.takeWhile (· != '>')).length < behind.length := by omega
        simp [none, more]
        omega
    · simp [alone]

theorem closeTagEnds {word : List Char} (small : ∀ v ∈ word, isSmall v) (before text : List Char) :
    (closeTag word).ends before text = (Markup.closeTag word text).toList := by
  have small : ∀ v ∈ '<' :: '/' :: word, isSmall v :=
    List.forall_mem_cons.mpr ⟨by decide, List.forall_mem_cons.mpr ⟨by decide, small⟩⟩
  rw [closeTag, lettersEnds small, Markup.closeTag]
  simp only [bind, Option.bind]
  cases afterWord ('<' :: '/' :: word) text with
  | none => rfl
  | some behind =>
    have space : ∀ c rest, isWhite c = true → (Expression.char '>').ends (c :: rest) = [] := by
      intro c rest white
      rw [CStyle.Form.charEnds, if_neg]
      rintro rfl
      exact absurd white (by decide)
    simp only [ends]
    rw [letterSign (by decide) (by decide), CStyle.Form.space, Expression.runSeqEnds space,
      CStyle.Form.charHead]
    split
    · simp
      omega
    · rfl

theorem keywordEnds {word : List Char} {w : Char} (small : ∀ v ∈ word ++ [w], isSmall v)
    (isLetter : 'a' ≤ w ∧ w ≤ 'z') (before text : List Char) :
    (keyword (word ++ [w])).ends before text = (Markup.keyword (word ++ [w]) text).toList := by
  rw [keyword, lettersEnds small, Markup.keyword]
  simp only [bind, Option.bind]
  cases found : afterWord (word ++ [w]) text with
  | none => rfl
  | some behind =>
    simp only [edgeEnds isLetter found]
    split <;> rfl

theorem anythingLater (last : Form) (before : List Char) (c : Char) (rest : List Char) :
    (seq anything last).ends before (c :: rest) =
      last.ends before (c :: rest) ++ ((seq anything last).ends (c :: before) rest).map (1 + ·) := by
  have one : (Expression.star false CStyle.Form.anything).ends (c :: rest) =
      0 :: ((Expression.star false CStyle.Form.anything).ends rest).map (1 + ·) := by
    rw [Expression.starEnds, CStyle.Form.anythingEnds]
    simp
  have each (n : Nat) :
      (last.ends (((c :: rest).take (1 + n)).reverse ++ before) ((c :: rest).drop (1 + n))).map
          (1 + n + ·) =
        ((last.ends ((rest.take n).reverse ++ c :: before) (rest.drop n)).map (n + ·)).map
          (1 + ·) := by
    rw [Expression.shiftTwice, Nat.add_comm 1 n]
    simp
  simp only [anything, ends, one, List.flatMap_cons, List.flatMap_map, List.map_flatMap, each]
  simp

theorem anythingFirst {last : Form} {stop : List Char → Option Nat}
    (reads : ∀ before text, last.ends before text = (stop text).toList) (before text : List Char) :
    (seq anything last).extent before text =
      (firstWhere stop text).map fun found => found.1 + found.2 := by
  induction text generalizing before with
  | nil =>
    have empty : (seq anything last).ends before [] = last.ends before [] := by
      simp [anything, ends, Expression.ends, Expression.rounds]
    rw [extent, empty, reads, firstWhere]
    cases stop [] <;> simp
  | cons c rest ih =>
    have later := ih (c :: before)
    rw [extent] at later
    rw [extent, anythingLater, reads, firstWhere]
    cases stop (c :: rest) with
    | some n => simp
    | none =>
      simp only [Option.toList_none, List.nil_append, List.head?_map, later, Option.map_map]
      congr 1
      funext found
      simp only [Function.comp_apply]
      omega

theorem afterWordSigns {word : List Char} (small : ∀ w ∈ word, isSmall w)
    (signs : ∀ w ∈ word, ¬ ('a' ≤ w ∧ w ≤ 'z')) (text : List Char) :
    afterWord word text = after word text := by
  induction word generalizing text with
  | nil => rfl
  | cons w word ih =>
    obtain ⟨isOne, small⟩ := List.forall_mem_cons.mp small
    obtain ⟨sign, signs⟩ := List.forall_mem_cons.mp signs
    cases text with
    | nil => rfl
    | cons c rest =>
      simp only [afterWord, after, sameSign isOne sign, ih small signs, beq_iff_eq]
      simp only [eq_comm]

theorem firstWhereMap {α β : Type} (stop : List Char → Option α) (f : α → β) (text : List Char) :
    firstWhere (fun text => (stop text).map f) text =
      (firstWhere stop text).map fun found => (found.1, f found.2) := by
  induction text with
  | nil =>
    rw [firstWhere, firstWhere]
    cases stop [] <;> rfl
  | cons c rest ih =>
    rw [firstWhere, firstWhere, ih]
    cases stop (c :: rest) with
    | none => simp [Function.comp_def]
    | some a => rfl

theorem enclosedExtent {opening closing : List Char}
    (small : ∀ w ∈ opening ++ closing, isSmall w)
    (signs : ∀ w ∈ opening ++ closing, ¬ ('a' ≤ w ∧ w ≤ 'z')) (before text : List Char) :
    (enclosed opening closing).extent before text = Markup.enclosed opening closing text := by
  obtain ⟨smallOpening, smallClosing⟩ := List.forall_mem_append.mp small
  obtain ⟨openingSigns, closingSigns⟩ := List.forall_mem_append.mp signs
  rw [extent, enclosed, lettersEnds smallOpening, afterWordSigns smallOpening openingSigns,
    Markup.enclosed]
  simp only [bind, Option.bind]
  cases after opening text with
  | none => rfl
  | some inside =>
    have reads (before text : List Char) : (letters closing .empty).ends before text =
        ((after closing text).map fun _ => closing.length).toList := by
      rw [lettersEnds smallClosing, afterWordSigns smallClosing closingSigns]
      cases after closing text <;> rfl
    have first := anythingFirst reads ((text.take opening.length).reverse ++ before) inside
    rw [extent] at first
    simp only [List.head?_map, first, firstWhereMap, through, Option.map_map]
    cases firstWhere (after closing) inside <;> rfl

end Form

theorem openingEnds (kind : BlockKind) (before text : List Char) :
    kind.opening.ends before text = (kind.opens text).toList := by
  cases kind with
  | script =>
    exact @Form.openTagEnds "scrip".toList 't' (eachLetter (by decide)) (by decide) before text
  | style =>
    exact @Form.openTagEnds "styl".toList 'e' (eachLetter (by decide)) (by decide) before text
  | verbatim =>
    exact @Form.keywordEnds "@verbati".toList 'm' (eachLetter (by decide)) (by decide) before text
  | php =>
    exact @Form.keywordEnds "@ph".toList 'p' (eachLetter (by decide)) (by decide) before text

theorem closingEnds (kind : BlockKind) (before text : List Char) :
    kind.closing.ends before text = (kind.closes text).toList := by
  cases kind with
  | script => exact Form.closeTagEnds (eachLetter (by decide)) before text
  | style => exact Form.closeTagEnds (eachLetter (by decide)) before text
  | verbatim =>
    exact @Form.keywordEnds "@endverbati".toList 'm' (eachLetter (by decide)) (by decide) before text
  | php =>
    exact @Form.keywordEnds "@endph".toList 'p' (eachLetter (by decide)) (by decide) before text

theorem formExtent (kind : BlockKind ⊕ CommentKind) (before text : List Char) :
    (formOf kind).extent before text = (branchOf kind text).map Region.width := by
  cases kind with
  | inl kind =>
    rw [formOf, Form.extent, Form.seqEnds, openingEnds, branchOf, block]
    simp only [bind, Option.bind]
    cases kind.opens text with
    | none => rfl
    | some opening =>
      have first := Form.anythingFirst (closingEnds kind) ((text.take opening).reverse ++ before)
        (text.drop opening)
      rw [Form.extent] at first
      simp only [Option.toList_some, List.flatMap_singleton, List.head?_map, first]
      cases firstWhere kind.closes (text.drop opening) with
      | none => rfl
      | some found => simp [Region.width, Nat.add_assoc]
  | inr kind =>
    have comments : kind.form.extent before text = kind.extent text := by
      cases kind with
      | blade => exact Form.enclosedExtent (eachLetter (by decide)) (eachLetter (by decide)) before text
      | html => exact Form.enclosedExtent (eachLetter (by decide)) (eachLetter (by decide)) before text
    rw [formOf, comments, branchOf, comment]
    cases kind.extent text <;> rfl

end CommentStrip.Markup
