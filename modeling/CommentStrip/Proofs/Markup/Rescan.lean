import CommentStrip.Proofs.CStyle.SecondScan
import CommentStrip.Proofs.Markup.Conditional
import CommentStrip.Proofs.Markup.Removed

/-! A second scan of a template. No comment opens where none did, and a conditional comment stays
one, so the second scan finds what the first one kept as long as it finds the blocks where the
first one did. -/
namespace CommentStrip.Markup
open Unicode Text

def remainder (keep : KeepSet) (delegate : Php.Delegate) (region : Region) (taken : List Char) :
    List Char :=
  (scanPiece keep delegate (.hit region taken)).text

theorem writtenReplaced (keep : KeepSet) (delegate : Php.Delegate) (found : List (Piece Region)) :
    written keep delegate found = replaced (remainder keep delegate) found := by
  rw [written, replaced, List.flatMap_def]
  congr 2
  funext piece
  cases piece <;> rfl

theorem enclosedIff {opening closing here : List Char} {n : Nat} :
    enclosed opening closing here = some n ↔
      ∃ inside body, here = opening ++ inside ∧ through closing inside = some body ∧
        n = opening.length + body := by
  simp only [enclosed, bind, Option.bind_eq_some_iff, afterSome]
  constructor
  · intro parts
    obtain ⟨inside, opened, body, reached, last⟩ := parts
    exact ⟨inside, body, opened, reached, (Option.some.inj last).symm⟩
  · intro parts
    obtain ⟨inside, body, opened, reached, rfl⟩ := parts
    exact ⟨inside, opened, body, reached, rfl⟩

theorem enclosedStays {opening closing text out : List Char} (solid : ∀ c ∈ opening, c ≠ ' ')
    (solidToo : ∀ c ∈ closing, c ≠ ' ') (blanked : Blanked text out) {n : Nat}
    (found : enclosed opening closing out = some n) :
    ∃ m, enclosed opening closing text = some m ∧ m ≤ n := by
  obtain ⟨inside, body, rfl, reached, rfl⟩ := enclosedIff.mp found
  obtain ⟨inner, rfl, later⟩ := blanked.behind solid
  obtain ⟨less, ends, before⟩ := later.through solidToo reached
  exact ⟨_, enclosedIff.mpr ⟨inner, less, rfl, ends, rfl⟩, Nat.add_le_add_left before _⟩

theorem enclosedAgain {opening closing taken rest : List Char}
    (found : enclosed opening closing (taken ++ rest) = some taken.length) (out : List Char) :
    enclosed opening closing (taken ++ out) = some taken.length := by
  obtain ⟨inside, body, same, reached, long⟩ := enclosedIff.mp found
  have front : opening <+: taken := by
    refine List.prefix_of_prefix_length_le ⟨inside, same.symm⟩ (List.prefix_append taken rest) ?_
    omega
  obtain ⟨inner, rfl⟩ := front
  rw [List.append_assoc, List.append_cancel_left_eq] at same
  subst same
  rw [List.length_append, Nat.add_left_cancel_iff] at long
  refine enclosedIff.mpr ⟨inner ++ out, body, List.append_assoc .., ?_, by rw [List.length_append, long]⟩
  exact throughInside reached (Nat.le_of_eq long.symm) out

theorem commentIff {kind : CommentKind} {here : List Char} {n : Nat} :
    comment kind here = some (.comment kind n) ↔ kind.extent here = some n := by
  simp [comment]

def conditionalWords : List (List Char) := ["[if ".toList, "<![endif]".toList]

theorem wordHead {word : List Char} (known : word.map asciiLower ∈ conditionalWords) :
    ∃ c tail, word = c :: tail ∧ (c = '[' ∨ c = '<') := by
  have marks : ∀ head ∈ conditionalWords, ∃ m tail, head = m :: tail ∧ (m = '[' ∨ m = '<') := by
    simp [conditionalWords]
  obtain ⟨m, lower, same, mark⟩ := marks _ known
  obtain ⟨c, tail, rfl, first, -⟩ := List.map_eq_cons_iff.mp same
  refine ⟨c, tail, rfl, ?_⟩
  rcases mark with rfl | rfl
  · exact .inl (lowerOther (by decide) first)
  · exact .inr (lowerOther (by decide) first)

theorem conditionalIff {body : List Char} :
    isConditional (['<', '!', '-', '-'] ++ body) = true ↔
      ∃ space word more, body = space ++ (word ++ more) ∧ (∀ c ∈ space, isWhite c = true) ∧
        word.map asciiLower ∈ conditionalWords := by
  have reads : isConditional (['<', '!', '-', '-'] ++ body) = true ↔
      ∃ head ∈ conditionalWords, startsWith head ((trimStart body).map asciiLower) = true := by
    simp [isConditional, after, conditionalWords]
  rw [reads]
  constructor
  · intro parts
    obtain ⟨head, known, begins⟩ := parts
    obtain ⟨behind, same⟩ := startsWithIff.mp begins
    obtain ⟨word, more, split, rfl, -⟩ := List.map_eq_append_iff.mp same
    refine ⟨body.takeWhile isWhite, word, more, ?_, List.all_eq_true.mp (List.all_takeWhile ..), known⟩
    rw [← split]
    exact (List.takeWhile_append_dropWhile ..).symm
  · intro parts
    obtain ⟨space, word, more, rfl, white, known⟩ := parts
    refine ⟨_, known, startsWithIff.mpr ⟨more.map asciiLower, ?_⟩⟩
    have solid : trimStart (word ++ more) = word ++ more := by
      obtain ⟨c, tail, rfl, mark⟩ := wordHead known
      have solid : isWhite c = false := by
        rcases mark with rfl | rfl <;> decide
      exact List.dropWhile_cons_of_neg (by simp [solid])
    rw [trimStart, List.dropWhile_append_of_pos white, ← trimStart, solid, List.map_append]

section
variable {variant : MarkupVariant}

theorem plainQuiet {before raw behind : List Char} (plain : ∀ c ∈ raw, ¬ isSign c) :
    (alternation variant).Quiet accepts before raw behind := by
  refine Alternation.quietEach ?_ before behind
  intro c member before rest
  rw [Option.eq_none_iff_forall_ne_some]
  intro region spoke
  obtain ⟨d, here, begins, sign⟩ := matchHead (Alternation.acceptedMatch spoke).1
  obtain ⟨rfl, -⟩ := List.cons.inj begins
  exact plain c member sign

theorem bangPassed {before rest : List Char} {d e : Char} (bang : asciiLower d = '!')
    (bracket : asciiLower e = '[') :
    (alternation variant).accepted? accepts before ('<' :: d :: e :: rest) = none := by
  rw [Option.eq_none_iff_forall_ne_some]
  intro region spoke
  obtain ⟨branch, known, found⟩ :=
    List.exists_of_findSome?_eq_some (Alternation.acceptedMatch spoke).1
  obtain ⟨promise, read⟩ := branchPromised known found
  have html : promised ('<' :: d :: e :: rest) = some (.inr .html) := by
    have sign : asciiLower '<' ≠ '{' := by decide
    simp [promised, sign, bang]
  rw [html] at promise
  rw [← Option.some.inj promise] at read
  simp only [branchOf, comment, Option.map_eq_some_iff] at read
  obtain ⟨extent, read, -⟩ := read
  obtain ⟨inside, body, same, -⟩ := enclosedIff.mp read
  simp only [List.cons_append, List.cons.injEq] at same
  obtain ⟨-, -, rfl, -⟩ := same
  revert bracket
  decide

theorem wordQuiet {before word behind : List Char}
    (known : word.map asciiLower ∈ conditionalWords) :
    (alternation variant).Quiet accepts before word behind := by
  have lowered : ∀ {chars : List Char} {head : List Char}, chars.map asciiLower = head →
      (∀ c, isSign c → c ∉ head) → ∀ c ∈ chars, ¬ isSign c := by
    intro chars head same plain c member sign
    have still : asciiLower c = c := by rcases sign with rfl | rfl | rfl <;> rfl
    refine plain c sign ?_
    rw [← same, ← still]
    exact List.mem_map_of_mem member
  simp only [conditionalWords, List.mem_cons, List.not_mem_nil, or_false] at known
  rcases known with same | same
  · refine plainQuiet (lowered same ?_)
    rintro c (rfl | rfl | rfl) <;> decide
  · obtain ⟨c, tail, rfl, first, rest⟩ := List.map_eq_cons_iff.mp same
    obtain ⟨d, tail, rfl, second, later⟩ := List.map_eq_cons_iff.mp rest
    obtain ⟨e, tail, rfl, third, -⟩ := List.map_eq_cons_iff.mp later
    obtain rfl : c = '<' := lowerOther (by decide) first
    refine Alternation.quietCons (bangPassed second third) (plainQuiet (lowered rest ?_))
    rintro c (rfl | rfl | rfl) <;> decide

theorem whitePlain {space : List Char} (white : ∀ c ∈ space, isWhite c = true) :
    ∀ c ∈ space, ¬ isSign c := by
  intro c member sign
  have solid : isWhite c = false := by rcases sign with rfl | rfl | rfl <;> decide
  rw [white c member] at solid
  cases solid

theorem conditionalStays {leave : Region → List Char → List Char} {before inside out : List Char}
    (scanned : (alternation variant).Replaces accepts leave before (['!', '-', '-'] ++ inside)
      (['!', '-', '-'] ++ out))
    {m n : Nat} (longer : m ≤ n)
    (conditional : isConditional (['<', '!', '-', '-'] ++ inside.take m) = true) :
    isConditional (['<', '!', '-', '-'] ++ out.take n) = true := by
  obtain ⟨space, word, more, same, white, known⟩ := conditionalIff.mp conditional
  have whole : ['!', '-', '-'] ++ inside =
      (['!', '-', '-'] ++ (space ++ word)) ++ (more ++ inside.drop m) := by
    calc ['!', '-', '-'] ++ inside
        = ['!', '-', '-'] ++ (inside.take m ++ inside.drop m) := by rw [List.take_append_drop]
      _ = _ := by
        rw [same]
        simp
  have bound : (space ++ word).length ≤ n := by
    have long := congrArg List.length same
    simp only [List.length_take, List.length_append] at long ⊢
    omega
  -- Nothing opens up to the end of the word, so all of it stands in the output too.
  have bangs : ∀ c ∈ ['!', '-', '-'], ¬ isSign c := by simp [isSign]
  have quiet : (alternation variant).Quiet accepts before (['!', '-', '-'] ++ (space ++ word))
      (more ++ inside.drop m) :=
    (plainQuiet bangs).append ((plainQuiet (whitePlain white)).append (wordQuiet known))
  rw [whole] at scanned
  obtain ⟨behind, left, -⟩ := Alternation.replacesQuiet scanned quiet
  rw [List.append_assoc, List.append_cancel_left_eq] at left
  refine conditionalIff.mpr ⟨space, word, behind.take (n - (space ++ word).length), ?_, white, known⟩
  rw [left, List.take_append, List.take_of_length_le bound, List.append_assoc]

theorem commentPassed {leave : Region → List Char → List Char} {before rest out : List Char}
    {c : Char} (passed : (alternation variant).accepted? accepts before (c :: rest) = none)
    (scanned : (alternation variant).Replaces accepts leave (c :: before) rest out)
    (blanked : Blanked rest out) (kind : CommentKind) (n : Nat) :
    ¬ Opens variant (c :: out) (.comment kind n) := by
  intro opens
  cases opens with
  | comment known found plain =>
    rw [commentIff] at found
    -- Blanks can only have moved the end of the comment back, never to the front.
    have stays : ∃ m, kind.extent (c :: rest) = some m ∧ m ≤ n := by
      cases kind with
      | blade | html => exact enclosedStays (by simp) (by simp) (.same blanked) found
    obtain ⟨m, foundToo, longer⟩ := stays
    have opensToo : Opens variant (c :: rest) (.comment kind m) := by
      refine .comment known (commentIff.mpr foundToo) ?_
      intro html
      subst html
      obtain ⟨inside, body, same, -, rfl⟩ := enclosedIff.mp foundToo
      obtain ⟨insideLeft, bodyLeft, sameLeft, -, rfl⟩ := enclosedIff.mp found
      have judged := plain rfl
      rw [sameLeft, List.take_length_add_append] at judged
      rw [same, List.take_length_add_append, Bool.eq_false_iff]
      intro conditional
      obtain ⟨rfl, rfl⟩ := List.cons.inj same
      obtain ⟨-, rfl⟩ := List.cons.inj sameLeft
      have still := conditionalStays scanned (Nat.le_of_add_le_add_left longer) conditional
      rw [judged] at still
      cases still
    rw [acceptedIff.mpr opensToo] at passed
    cases passed

end

theorem commentAgain {μ : Type} {a : Alternation μ} {accept : Alternation.Acceptance μ}
    {leave : μ → List Char → List Char} {keep : KeepSet} {found : μ} {before taken out : List Char}
    (leaves : ∀ raw, leave found raw = (scanComment keep raw).text)
    (filled : taken ≠ []) (long : a.width found = taken.length)
    (spoke : a.accepted? accept before (taken ++ out) = some found)
    (quiet : a.Quiet accept before (blank taken) out)
    (later : a.Replaces accept leave ((leave found taken).reverse ++ before) out out) :
    a.Replaces accept leave before (leave found taken ++ out) (leave found taken ++ out) := by
  cases holds : keep.holds taken with
  | true =>
    have same : leave found taken = taken := (leaves taken).trans (congrArg Scanned.text (commentKept holds))
    rw [same] at later ⊢
    have again : a.Replaces accept leave before (taken ++ out) (leave found taken ++ out) :=
      .taken filled long spoke later
    rwa [same] at again
  | false =>
    have same : leave found taken = blank taken := (leaves taken).trans (congrArg Scanned.text (commentGone holds))
    rw [same] at later ⊢
    exact Alternation.replacesOver quiet later

theorem opensAgain {variant : MarkupVariant} {kind : CommentKind} {taken rest : List Char} {n : Nat}
    (known : kind ∈ commentKinds variant)
    (found : comment kind (taken ++ rest) = some (.comment kind n))
    (plain : kind = .html → isConditional ((taken ++ rest).take n) = false)
    (long : n = taken.length) (out : List Char) : Opens variant (taken ++ out) (.comment kind n) := by
  subst long
  rw [List.take_left] at plain
  refine .comment known ?_ (by rwa [List.take_left])
  rw [commentIff] at found ⊢
  cases kind with
  | blade | html => exact enclosedAgain found out

theorem blankPlain (raw : List Char) : ∀ c ∈ blank raw, ¬ isSign c := by
  intro c member sign
  rcases CStyle.blankGap c member with rfl | lineBreak
  · rcases sign with bad | bad | bad <;> cases bad
  · rcases sign with rfl | rfl | rfl <;> cases lineBreak

/- Wherever the scan comes to, a block opens in the text exactly when it opens in what is left of
it, and the regular expressions in its body stay as they are. -/
structure SameBlocks (variant : MarkupVariant) (keep : KeepSet) (text stripped : List Char) :
    Prop where
  places : ∀ {before here kind opening body closing},
    (alternation variant).Visits accepts text before here →
      (Opens variant here (.block kind opening body closing) ↔
        Opens variant (stripped.drop before.length) (.block kind opening body closing))
  regexes : ∀ {before here kind opening body closing o},
    (alternation variant).Visits accepts text before here →
      Opens variant here (.block kind opening body closing) → kind.rules = some o →
        o.regexLiterals = true →
          CStyle.SameRegexes o ((here.drop opening).take body)
            (CStyle.scan o keep ((here.drop opening).take body)).1

def blockAt (variant : MarkupVariant) (here : List Char) : Option Region :=
  ((alternation variant).accepted? accepts [] here).filter fun
    | .block .. => true
    | .comment .. => false

theorem blockAtIff {variant : MarkupVariant} {here : List Char} {kind : BlockKind}
    {opening body closing : Nat} :
    blockAt variant here = some (.block kind opening body closing) ↔
      Opens variant here (.block kind opening body closing) := by
  rw [blockAt, Option.filter_eq_some_iff, acceptedIff]
  exact and_iff_left rfl

def RegexesStay (keep : KeepSet) (here : List Char) : Region → Prop
  | .comment .. => True
  | .block kind opening body _ => ∀ o ∈ kind.rules, o.regexLiterals = true →
    let inner := (here.drop opening).take body
    let left := (CStyle.scan o keep inner).1
    ∀ n < inner.length + 1, CStyle.readsRegex (inner.take n).reverse (inner.drop n) =
      CStyle.readsRegex (left.take n).reverse (left.drop n)

instance (keep : KeepSet) (here : List Char) : DecidablePred (RegexesStay keep here)
  | .comment .. => .isTrue trivial
  | .block kind opening body closing => by
    unfold RegexesStay
    infer_instance

theorem sameBlocksEverywhere {variant : MarkupVariant} {keep : KeepSet}
    {text stripped : List Char}
    (each : ∀ n < text.length + 1,
      blockAt variant (text.drop n) = blockAt variant (stripped.drop n) ∧
        ∀ region ∈ blockAt variant (text.drop n), RegexesStay keep (text.drop n) region) :
    SameBlocks variant keep text stripped := by
  refine ⟨?_, ?_⟩
  · intro before here kind opening body closing seen
    obtain ⟨inside, -, back⟩ := Alternation.visitsPlace seen
    have same := (each before.length inside).1
    rw [back] at same
    rw [← blockAtIff, ← blockAtIff, same]
  · intro before here kind opening body closing o seen opens rules enabled
    obtain ⟨inside, -, back⟩ := Alternation.visitsPlace seen
    have stay := (each before.length inside).2
    rw [back] at stay
    exact CStyle.sameRegexesEverywhere (stay _ (blockAtIff.mpr opens) o rules enabled)

theorem behindReverse {stripped before before' out : List Char}
    (whole : stripped = before'.reverse ++ out) (even : before'.length = before.length) :
    stripped.drop before.length = out := by
  rw [whole, ← even, ← List.length_reverse, List.drop_left]

section
variable {keep : KeepSet} {delegate : Php.Delegate} (fails : Php.Fails delegate)
include fails

theorem bodyTwice {kind : BlockKind} {body : List Char}
    (regexes : ∀ o, kind.rules = some o → o.regexLiterals = true →
      CStyle.SameRegexes o body (CStyle.scan o keep body).1) :
    (scanBody keep delegate kind (scanBody keep delegate kind body).text).text =
      (scanBody keep delegate kind body).text := by
  cases rules : kind.rules with
  | none =>
    rw [bodyCopied rules, bodyCopied rules]
    rfl
  | some o =>
    obtain ⟨first, one⟩ := bodyScanned rules keep fails body
    rw [one]
    obtain ⟨second, two⟩ := bodyScanned rules keep fails (CStyle.scan o keep body).1
    rw [two]
    show (CStyle.scan o keep (CStyle.scan o keep body).1).1 = (CStyle.scan o keep body).1
    rw [CStyle.scanTwice (rulesPlain rules) keep body (regexes o rules)]

omit fails in
theorem remainderBlock (kind : BlockKind) (front inner back : List Char) (closing : Nat) :
    remainder keep delegate (.block kind front.length inner.length closing)
        (front ++ (inner ++ back)) =
      front ++ ((scanBody keep delegate kind inner).text ++ back) := by
  show (front ++ (inner ++ back)).take front.length ++
    ((scanBody keep delegate kind
      (((front ++ (inner ++ back)).drop front.length).take inner.length)).text ++
        (front ++ (inner ++ back)).drop (front.length + inner.length)) = _
  rw [List.take_left, ← List.drop_drop, List.drop_left, List.take_left, List.drop_left]

theorem blockTwice {kind : BlockKind} {inner : List Char}
    (regexes : ∀ o, kind.rules = some o → o.regexLiterals = true →
      CStyle.SameRegexes o inner (CStyle.scan o keep inner).1)
    (front back : List Char) (closing : Nat) :
    remainder keep delegate (.block kind front.length inner.length closing)
        (remainder keep delegate (.block kind front.length inner.length closing)
          (front ++ (inner ++ back))) =
      remainder keep delegate (.block kind front.length inner.length closing)
        (front ++ (inner ++ back)) := by
  have even := (bodyBlanks keep fails kind inner).blanked.length
  rw [remainderBlock kind front inner back closing, ← even, remainderBlock, bodyTwice fails regexes]

omit fails in
theorem blockParts {opening body : Nat} {taken : List Char} (long : opening + body ≤ taken.length) :
    ∃ front inner back, taken = front ++ (inner ++ back) ∧ front.length = opening ∧
      inner.length = body := by
  refine ⟨taken.take opening, (taken.drop opening).take body, (taken.drop opening).drop body, ?_,
    ?_, ?_⟩
  · rw [List.take_append_drop, List.take_append_drop]
  · rw [List.length_take]
    omega
  · rw [List.length_take, List.length_drop]
    omega

theorem blockAgain {variant : MarkupVariant} {kind : BlockKind} {opening body closing : Nat}
    {before taken rest out : List Char} (filled : taken ≠ [])
    (long : opening + body + closing = taken.length)
    (regexes : ∀ o, kind.rules = some o → o.regexLiterals = true →
      CStyle.SameRegexes o (((taken ++ rest).drop opening).take body)
        (CStyle.scan o keep (((taken ++ rest).drop opening).take body)).1)
    (opens : Opens variant
      (remainder keep delegate (.block kind opening body closing) taken ++ out)
      (.block kind opening body closing))
    (later : (alternation variant).Replaces accepts (remainder keep delegate)
      ((remainder keep delegate (.block kind opening body closing) taken).reverse ++ before)
      out out) :
    (alternation variant).Replaces accepts (remainder keep delegate) before
      (remainder keep delegate (.block kind opening body closing) taken ++ out)
      (remainder keep delegate (.block kind opening body closing) taken ++ out) := by
  have within : opening + body ≤ taken.length :=
    Nat.le_trans (Nat.le_add_right ..) (Nat.le_of_eq long)
  obtain ⟨front, inner, back, rfl, rfl, rfl⟩ := blockParts within
  simp only [List.append_assoc, List.drop_left, List.take_left] at regexes
  have still := blockTwice fails regexes front back closing
  have even : (remainder keep delegate (.block kind front.length inner.length closing)
      (front ++ (inner ++ back))).length = (front ++ (inner ++ back)).length := by
    rw [remainderBlock]
    simp [(bodyBlanks keep fails kind inner).blanked.length]
  have solid : remainder keep delegate (.block kind front.length inner.length closing)
      (front ++ (inner ++ back)) ≠ [] := by
    rwa [← List.length_pos_iff, even, List.length_pos_iff]
  have step : (alternation variant).Replaces accepts (remainder keep delegate) before _
      (remainder keep delegate (.block kind front.length inner.length closing)
        (remainder keep delegate (.block kind front.length inner.length closing)
          (front ++ (inner ++ back))) ++ out) :=
    .taken solid (long.trans even.symm) (acceptedIff.mpr opens) later
  rwa [still] at step

theorem replacesAgain {variant : MarkupVariant} {text stripped before here out : List Char}
    (scanned : (alternation variant).Replaces accepts (remainder keep delegate) before here out)
    (same : SameBlocks variant keep text stripped)
    (seen : (alternation variant).Visits accepts text before here)
    {before' : List Char} (whole : stripped = before'.reverse ++ out)
    (even : before'.length = before.length) :
    (alternation variant).Replaces accepts (remainder keep delegate) before' out out := by
  induction scanned generalizing before' with
  | done => exact .done
  | @past before c rest out passed later ih =>
    refine .past ?_ (ih (.past seen passed) (by simp [whole]) (by simp [even]))
    rw [Option.eq_none_iff_forall_ne_some]
    intro region spoke
    have opens := acceptedIff.mp spoke
    -- A comment never opens anew; that no block does is what `same` says.
    cases region with
    | comment kind n =>
      have blanked := Alternation.replacesBlanked later fun filled found =>
        (hitBlanks keep fails found filled).blanked
      exact commentPassed passed later blanked kind n opens
    | block kind opening body closing =>
      have there := (same.places seen).mpr (behindReverse whole even ▸ opens)
      rw [acceptedIff.mpr there] at passed
      cases passed
  | @taken before taken rest found out filled long spoke later ih =>
    have place : (remainder keep delegate found taken).length = taken.length :=
      (hitBlanks keep fails (Alternation.acceptedMatch spoke).1 filled).blanked.length
    have behind : (alternation variant).Replaces accepts (remainder keep delegate)
        ((remainder keep delegate found taken).reverse ++ before') out out :=
      ih (Alternation.visitsOver filled long spoke seen) (by simp [whole]) (by simp [even, place])
    have opens := acceptedIff.mp spoke
    cases found with
    | comment kind n =>
      refine commentAgain (fun _ => rfl) filled long (acceptedIff.mpr ?_)
        (plainQuiet (blankPlain taken)) behind
      cases opens with
      | comment known found plain => exact opensAgain known found plain long out
    | block kind opening body closing =>
      have there := (same.places seen).mp opens
      rw [behindReverse whole even] at there
      exact blockAgain fails filled long
        (fun o rules => same.regexes seen opens rules) there behind

theorem scanTwice {variant : MarkupVariant} (single : variant ≠ .jinja) {text : List Char}
    (same : SameBlocks variant keep text (scan variant keep delegate text).text) :
    (scan variant keep delegate (scan variant keep delegate text).text).text =
      (scan variant keep delegate text).text := by
  simp only [scanWritten single, writtenReplaced] at same ⊢
  have first : (alternation variant).Replaces accepts (remainder keep delegate) [] text _ :=
    (Alternation.replacesIff (matchInside variant)).mpr rfl
  exact (Alternation.replacesIff (matchInside variant)).mp
    (replacesAgain fails first same .start rfl rfl)

end
end CommentStrip.Markup
