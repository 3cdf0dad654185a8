import CommentStrip.Markup.Scan
import CommentStrip.Proofs.Search

/-! Which regions begin at a place of a template. Their first characters tell them apart, so the
order of the branches plays no part. -/
namespace CommentStrip.Markup
open Unicode Text

def blockKinds : MarkupVariant → List BlockKind
  | .blade => [.script, .style, .verbatim, .php]
  | .html | .jinja => [.script, .style]

def commentKinds : MarkupVariant → List CommentKind
  | .blade => [.blade, .html]
  | .html | .jinja => [.html]

/- A region that begins here and that the scanner does not pass over: a block that is no inline
expression, or a comment that is not conditional. -/
inductive Opens (variant : MarkupVariant) (here : List Char) : Region → Prop where
  | block {kind opening body closing} (known : kind ∈ blockKinds variant)
      (found : block kind here = some (.block kind opening body closing))
      (whole : kind = .php → isInline (here.drop opening) = false) :
      Opens variant here (.block kind opening body closing)
  | comment {kind extent} (known : kind ∈ commentKinds variant)
      (found : comment kind here = some (.comment kind extent))
      (plain : kind = .html → isConditional (here.take extent) = false) :
      Opens variant here (.comment kind extent)

theorem branchesOf (variant : MarkupVariant) :
    (alternation variant).branches =
      (blockKinds variant).map block ++ (commentKinds variant).map comment := by
  cases variant <;> rfl

def promised (here : List Char) : Option (BlockKind ⊕ CommentKind) :=
  match here with
  | first :: second :: third :: _ =>
    if asciiLower first = '{' then some (.inr .blade)
    else if asciiLower second = '!' then some (.inr .html)
    else if asciiLower first = '@' then some (.inl (if asciiLower second = 'v' then .verbatim else .php))
    else some (.inl (if asciiLower third = 'c' then .script else .style))
  | _ => none

def kindOf : Region → BlockKind ⊕ CommentKind
  | .block kind _ _ _ => .inl kind
  | .comment kind _ => .inr kind

theorem afterWordCons {w : Char} {word text behind : List Char}
    (found : afterWord (w :: word) text = some behind) :
    ∃ c rest, text = c :: rest ∧ sameLetter w c = true ∧ afterWord word rest = some behind := by
  cases text with
  | nil => cases found
  | cons c rest =>
    by_cases same : sameLetter w c
    · rw [afterWord, if_pos same] at found
      exact ⟨c, rest, rfl, same, found⟩
    · rw [afterWord, if_neg same] at found
      cases found

theorem sameLetterPlain {letter c : Char} (notS : letter ≠ 's') (notK : letter ≠ 'k') :
    sameLetter letter c = true ↔ asciiLower c = letter := by
  simp [sameLetter, notS, notK]

theorem threeLetters {x y z : Char} {word text behind : List Char}
    (found : afterWord (x :: y :: z :: word) text = some behind) :
    ∃ a b c rest, text = a :: b :: c :: rest ∧ sameLetter x a = true ∧ sameLetter y b = true ∧
      sameLetter z c = true := by
  obtain ⟨a, rest, rfl, first, found⟩ := afterWordCons found
  obtain ⟨b, rest, rfl, second, found⟩ := afterWordCons found
  obtain ⟨c, rest, rfl, third, -⟩ := afterWordCons found
  exact ⟨a, b, c, rest, rfl, first, second, third⟩

def BlockKind.word : BlockKind → List Char
  | .script => ['<', 's', 'c', 'r', 'i', 'p', 't']
  | .style => ['<', 's', 't', 'y', 'l', 'e']
  | .verbatim => ['@', 'v', 'e', 'r', 'b', 'a', 't', 'i', 'm']
  | .php => ['@', 'p', 'h', 'p']

theorem opensWord {kind : BlockKind} {here : List Char} {opening : Nat}
    (opens : kind.opens here = some opening) : ∃ behind, afterWord kind.word here = some behind := by
  cases kind <;>
  · simp only [BlockKind.opens, openTag, keyword, bind, Option.bind_eq_some_iff] at opens
    obtain ⟨behind, word, -⟩ := opens
    exact ⟨behind, word⟩

theorem letterNotBang {c : Char} (same : sameLetter 's' c = true) : asciiLower c ≠ '!' := by
  simp only [sameLetter, Bool.or_eq_true, beq_iff_eq, Bool.and_eq_true] at same
  rcases same with (lower | ⟨-, rfl⟩) | ⟨other, -⟩
  · rw [lower]; decide
  · decide
  · cases other

theorem wordPromised {kind : BlockKind} {here behind : List Char}
    (word : afterWord kind.word here = some behind) : promised here = some (.inl kind) := by
  cases kind with
  | script =>
    obtain ⟨a, b, c, rest, rfl, first, second, third⟩ := threeLetters word
    have mark := letterNotBang second
    rw [sameLetterPlain (by decide) (by decide)] at first third
    simp [promised, first, mark, third]
  | style =>
    obtain ⟨a, b, c, rest, rfl, first, second, third⟩ := threeLetters word
    have mark := letterNotBang second
    rw [sameLetterPlain (by decide) (by decide)] at first third
    simp [promised, first, mark, third]
  | verbatim =>
    obtain ⟨a, b, c, rest, rfl, first, second, third⟩ := threeLetters word
    rw [sameLetterPlain (by decide) (by decide)] at first second
    simp [promised, first, second]
  | php =>
    obtain ⟨a, b, c, rest, rfl, first, second, third⟩ := threeLetters word
    rw [sameLetterPlain (by decide) (by decide)] at first second
    simp [promised, first, second]

theorem blockPromised {kind : BlockKind} {here : List Char} {region : Region}
    (found : block kind here = some region) :
    kindOf region = .inl kind ∧ promised here = some (.inl kind) := by
  simp only [block, bind, Option.bind_eq_some_iff] at found
  obtain ⟨opening, opens, ⟨body, closing⟩, closed, last⟩ := found
  cases Option.some.inj last
  obtain ⟨behind, word⟩ := opensWord opens
  exact ⟨rfl, wordPromised word⟩

theorem commentPromised {kind : CommentKind} {here : List Char} {region : Region}
    (found : comment kind here = some region) :
    kindOf region = .inr kind ∧ promised here = some (.inr kind) := by
  simp only [comment, Option.map_eq_some_iff] at found
  obtain ⟨extent, found, rfl⟩ := found
  refine ⟨rfl, ?_⟩
  cases kind <;>
  · simp only [CommentKind.extent, enclosed, bind, Option.bind_eq_some_iff] at found
    obtain ⟨inside, opened, -⟩ := found
    obtain rfl := afterSome.mp opened
    simp [promised, asciiLower]

def branchOf : BlockKind ⊕ CommentKind → List Char → Option Region
  | .inl kind => block kind
  | .inr kind => comment kind

theorem branchPromised {variant : MarkupVariant} {branch : List Char → Option Region}
    {here : List Char} {region : Region} (known : branch ∈ (alternation variant).branches)
    (found : branch here = some region) :
    promised here = some (kindOf region) ∧ branchOf (kindOf region) here = some region := by
  rw [branchesOf, List.mem_append, List.mem_map, List.mem_map] at known
  rcases known with ⟨kind, -, rfl⟩ | ⟨kind, -, rfl⟩
  · obtain ⟨same, promise⟩ := blockPromised found
    rw [same]
    exact ⟨promise, found⟩
  · obtain ⟨same, promise⟩ := commentPromised found
    rw [same]
    exact ⟨promise, found⟩

theorem branchesAgree {variant : MarkupVariant} (here : List Char) :
    ∀ f ∈ (alternation variant).branches, ∀ g ∈ (alternation variant).branches,
      ∀ x y, f here = some x → g here = some y → x = y := by
  intro f knownF g knownG x y foundX foundY
  obtain ⟨promiseX, branchX⟩ := branchPromised knownF foundX
  obtain ⟨promiseY, branchY⟩ := branchPromised knownG foundY
  have kinds : kindOf x = kindOf y := Option.some.inj (promiseX.symm.trans promiseY)
  rw [kinds, branchY] at branchX
  exact (Option.some.inj branchX).symm

theorem opensLong {kind : BlockKind} {text : List Char} {n : Nat} (found : kind.opens text = some n) :
    0 < n := by
  cases kind <;>
  · simp only [BlockKind.opens, openTag, keyword, bind, Option.bind_eq_some_iff] at found
    obtain ⟨behind, -, last⟩ := found
    split at last <;> cases last
    simp

theorem closesLong {kind : BlockKind} {text : List Char} {n : Nat}
    (found : kind.closes text = some n) : 0 < n := by
  cases kind <;>
  · simp only [BlockKind.closes, closeTag, keyword, bind, Option.bind_eq_some_iff] at found
    obtain ⟨behind, -, last⟩ := found
    split at last <;> cases last
    simp

theorem blockWidth {kind : BlockKind} {here : List Char} {region : Region}
    (found : block kind here = some region) : region.width ≠ 0 := by
  simp only [block, bind, Option.bind_eq_some_iff] at found
  obtain ⟨opening, opens, ⟨body, closing⟩, -, last⟩ := found
  cases Option.some.inj last
  have long := opensLong opens
  simp only [Region.width]
  omega

theorem commentWidth {kind : CommentKind} {here : List Char} {region : Region}
    (found : comment kind here = some region) : region.width ≠ 0 := by
  simp only [comment, Option.map_eq_some_iff] at found
  obtain ⟨extent, found, rfl⟩ := found
  cases kind <;>
  · simp only [CommentKind.extent, enclosed, bind, Option.bind_eq_some_iff] at found
    obtain ⟨inside, -, body, -, last⟩ := found
    cases Option.some.inj last
    simp [Region.width]

theorem acceptedIff {variant : MarkupVariant} {before here : List Char} {region : Region} :
    (alternation variant).accepted? accepts before here = some region ↔
      Opens variant here region := by
  rw [Alternation.acceptedIff, Alternation.matchAtIff (branchesAgree here), branchesOf]
  constructor
  · intro parts
    obtain ⟨⟨branch, known, found⟩, -, accepted⟩ := parts
    rw [List.mem_append, List.mem_map, List.mem_map] at known
    rcases known with ⟨kind, known, rfl⟩ | ⟨kind, known, rfl⟩
    · have same := (blockPromised found).1
      cases region with
      | comment => cases same
      | block other opening body closing =>
        cases same
        refine .block known found ?_
        intro same
        subst same
        simpa [accepts] using accepted
    · have same := (commentPromised found).1
      cases region with
      | block => cases same
      | comment other extent =>
        cases same
        refine .comment known found ?_
        intro same
        subst same
        simpa [accepts] using accepted
  · intro opens
    cases opens with
    | @block kind opening body closing known found whole =>
      refine ⟨⟨block kind, List.mem_append_left _ (List.mem_map_of_mem known), found⟩, ?_⟩
      refine ⟨blockWidth found, ?_⟩
      cases kind with
      | php => simpa [accepts] using whole rfl
      | script | style | verbatim => rfl
    | @comment kind extent known found plain =>
      refine ⟨⟨comment kind, List.mem_append_right _ (List.mem_map_of_mem known), found⟩, ?_⟩
      refine ⟨commentWidth found, ?_⟩
      cases kind with
      | html => simpa [accepts] using plain rfl
      | blade => rfl

end CommentStrip.Markup
