import CommentStrip.Proofs.CStyle.Lexer

/-! Brace expressions, and what is read at a place apart from them. A brace expression is the first
branch of all and shares its places with no other, so every other branch is read as if there were
none. -/
namespace CommentStrip.CStyle
open Unicode Text

def Options.withoutBraces (o : Options) : Options := { o with jsx := false }

inductive InnerComment : List Char → Prop where
  | block {inner} (first : EndsFirst ['*', '/'] inner) :
      InnerComment (['/', '*'] ++ (inner ++ ['*', '/']))
  | line {inner} (first : EndsFirst ['\n'] inner) :
      InnerComment (['/', '/'] ++ (inner ++ ['\n']))

structure BraceParts (lead comment trail : List Char) : Prop where
  leads : ∀ c ∈ lead, isWhite c = true
  inner : InnerComment comment
  trails : ∀ c ∈ trail, isWhite c = true

def braced (lead comment trail : List Char) : List Char :=
  '\x7b' :: (lead ++ (comment ++ (trail ++ ['\x7d'])))

theorem innerLineReads (text : List Char) :
    innerLineComment text =
      (after ['/', '/'] text).bind fun rest => (through ['\n'] rest).map (· + 2) := by
  simp only [innerLineComment, bind]
  congr 1
  funext rest
  cases through ['\n'] rest <;> rfl

theorem innerTakes :
    Takes (fun text => blockComment text <|> innerLineComment text) fun taken _ =>
      InnerComment taken := by
  have block : Takes blockComment _ := behindTakes (throughTakes (by simp)) blockReads
  have line : Takes innerLineComment _ := behindTakes (throughTakes (by simp)) innerLineReads
  intro text n
  show (blockComment text <|> innerLineComment text) = some n ↔ _
  constructor
  · intro found
    cases first : blockComment text with
    | some m =>
      rw [first] at found
      cases found
      obtain ⟨taken, rest, rfl, rfl, body, rfl, inner, rfl, ends⟩ := (block text n).mp first
      exact ⟨_, rest, rfl, rfl, .block ends⟩
    | none =>
      rw [first] at found
      obtain ⟨taken, rest, rfl, rfl, body, rfl, inner, rfl, feed⟩ := (line text n).mp found
      exact ⟨_, rest, rfl, rfl, .line feed⟩
  · intro parts
    obtain ⟨taken, rest, rfl, rfl, inner⟩ := parts
    cases inner with
    | @block inner ends =>
      rw [(block _ _).mpr ⟨_, rest, rfl, rfl, _, rfl, inner, rfl, ends⟩]
      rfl
    | @line inner feed =>
      have apart : blockComment (['/', '/'] ++ (inner ++ ['\n']) ++ rest) = none := rfl
      rw [apart]
      exact (line _ _).mpr ⟨_, rest, rfl, rfl, _, rfl, inner, rfl, feed⟩

theorem innerSolid {comment : List Char} (inner : InnerComment comment) (rest : List Char) :
    ∀ c, (comment ++ rest).head? = some c → isWhite c = false := by
  intro c first
  cases inner <;> cases first <;> rfl

theorem jsxTakes : Takes jsxComment fun taken _ =>
    ∃ lead comment trail, BraceParts lead comment trail ∧ taken = braced lead comment trail := by
  intro text n
  constructor
  · intro found
    cases text with
    | nil => cases found
    | cons c inside =>
      by_cases brace : c = '\x7b'
      · subst brace
        obtain ⟨m, inner, reached⟩ := Option.bind_eq_some_iff.mp found
        obtain ⟨lead, body, rfl, -, leads, stops⟩ := (runTakes isWhite inside _).mp rfl
        simp only [takeWhileExact leads stops, List.drop_left] at inner reached
        obtain ⟨comment, behind, rfl, rfl, form⟩ := (innerTakes body m).mp inner
        obtain ⟨trail, rest, rfl, -, trails, ends⟩ := (runTakes isWhite behind _).mp rfl
        simp only [List.drop_left, takeWhileExact trails ends] at reached
        split at reached
        · rename_i closes
          cases reached
          obtain ⟨rest, rfl⟩ := List.head?_eq_some_iff.mp closes
          refine ⟨_, rest, ?_, ?_, lead, comment, trail, ⟨leads, form, trails⟩, rfl⟩
          · simp [braced]
          · simp [braced]
            omega
        · cases reached
      · rw [jsxComment] at found
        · cases found
        · intro inside same
          cases same
          exact brace rfl
  · intro parts
    obtain ⟨taken, rest, rfl, rfl, lead, comment, trail, form, rfl⟩ := parts
    have whole : braced lead comment trail ++ rest =
        '\x7b' :: (lead ++ (comment ++ (trail ++ '\x7d' :: rest))) := by simp [braced]
    have body : (blockComment (comment ++ (trail ++ '\x7d' :: rest)) <|>
        innerLineComment (comment ++ (trail ++ '\x7d' :: rest))) = some comment.length :=
      (innerTakes _ _).mpr ⟨comment, _, rfl, rfl, form.inner⟩
    have closed : ∀ c, ('\x7d' :: rest).head? = some c → isWhite c = false := by
      intro c first
      cases first
      rfl
    rw [whole, jsxComment]
    simp only [takeWhileExact form.leads (innerSolid form.inner _), List.drop_left, body, bind,
      Option.bind, takeWhileExact form.trails closed, List.head?_cons, if_true]
    simp [braced]
    omega

/- A brace expression leaves a line break, or held a comment with both its ends. -/
theorem bracedRemains {lead comment trail : List Char} (inner : InnerComment comment)
    (empty : collapse (braced lead comment trail) = []) :
    ['*', '/'] <:+: braced lead comment trail := by
  cases inner with
  | @block inner first =>
    exact ⟨'\x7b' :: lead ++ ['/', '*'] ++ inner, trail ++ ['\x7d'], by simp [braced]⟩
  | @line inner first =>
    have feed : '\n' ∈ collapse (braced lead (['/', '/'] ++ (inner ++ ['\n'])) trail) := by
      simp [collapse, braced, isBreak]
    rw [empty] at feed
    cases feed

def readsBrace (before here : List Char) : Bool := acceptsChild before && (jsxComment here).isSome

structure OpensBrace (o : Options) (before taken rest : List Char) : Prop where
  enabled : o.jsx = true
  extent : jsxComment (taken ++ rest) = some taken.length
  child : acceptsChild before = true

section
variable {o : Options} {before taken rest : List Char}

theorem plainBraceless (plain : o.jsx = false) : ¬ OpensBrace o before taken rest := by
  intro opens
  have enabled := opens.enabled
  rw [plain] at enabled
  cases enabled

theorem OpensBrace.parts (opens : OpensBrace o before taken rest) :
    ∃ lead comment trail, BraceParts lead comment trail ∧ taken = braced lead comment trail := by
  obtain ⟨front, back, same, long, parts⟩ := (jsxTakes _ _).mp opens.extent
  obtain ⟨rfl, -⟩ := List.append_inj same.symm long
  exact parts

theorem OpensBrace.filled (opens : OpensBrace o before taken rest) : taken ≠ [] := by
  obtain ⟨lead, comment, trail, -, rfl⟩ := opens.parts
  exact List.cons_ne_nil _ _

theorem OpensBrace.led (opens : OpensBrace o before taken rest) :
    ledBy (taken ++ rest) = some .jsxComment := jsxLeads opens.extent

theorem OpensBrace.reads (opens : OpensBrace o before taken rest) :
    readsBrace before (taken ++ rest) = true := by
  rw [readsBrace, opens.child, opens.extent]
  rfl

theorem OpensBrace.again (opens : OpensBrace o before taken rest) {before' rest' : List Char}
    (reads : readsBrace before' (taken ++ rest') = true) : OpensBrace o before' taken rest' := by
  rw [readsBrace, Bool.and_eq_true] at reads
  exact ⟨opens.enabled, (jsxTakes _ _).mpr ⟨taken, rest', rfl, rfl, opens.parts⟩, reads.1⟩

theorem appliesOther {branch : Branch} (applies : Applies o before branch taken rest) :
    branch ≠ .jsxComment := by
  intro same
  subst same
  exact applies.enabled

theorem braceless {branch : Branch} (other : branch ≠ .jsxComment) :
    branch ∈ o.branches ↔ branch ∈ o.withoutBraces.branches := by
  obtain ⟨jsx, line, hash, regex⟩ := o
  cases jsx with
  | false => rfl
  | true =>
    show branch ∈ .jsxComment :: (Options.mk false line hash regex).branches ↔ _
    rw [List.mem_cons, or_iff_right other]
    rfl

theorem acceptedBranch {here : List Char} {found : Find} :
    (alternation o).accepted? accepts before here = some found ↔
      (found.branch ∈ o.branches ∧ find found.branch here = some found) ∧ found.width ≠ 0 ∧
        accepts before found here = true := by
  rw [Alternation.acceptedIff, Alternation.matchAtIff (findsAgree o here)]
  refine and_congr ⟨?_, ?_⟩ Iff.rfl
  · intro parts
    obtain ⟨read, known, spoke⟩ := parts
    obtain ⟨branch, member, rfl⟩ := List.mem_map.mp known
    rw [(findLeads spoke).1]
    exact ⟨member, spoke⟩
  · intro parts
    exact ⟨find found.branch, List.mem_map_of_mem parts.1, parts.2⟩

theorem acceptedBraceless {here : List Char} {found : Find} (other : found.branch ≠ .jsxComment) :
    (alternation o).accepted? accepts before here = some found ↔
      (alternation o.withoutBraces).accepted? accepts before here = some found := by
  rw [acceptedBranch, acceptedBranch, braceless other]

theorem appliedIff {here : List Char} {found : Find} (other : found.branch ≠ .jsxComment) :
    (alternation o).accepted? accepts before here = some found ↔
      ∃ taken rest, here = taken ++ rest ∧ taken.length = found.width ∧
        Applies o before found.branch taken rest := by
  have same : ∀ taken rest, Applies o.withoutBraces before found.branch taken rest ↔
      Applies o before found.branch taken rest := fun taken rest =>
    ⟨fun applies => ⟨applies.1, applies.2, applies.3⟩,
      fun applies => ⟨applies.1, applies.2, applies.3⟩⟩
  rw [acceptedBraceless other, acceptedIff rfl]
  simp only [same]

theorem braceIff {here : List Char} {n : Nat} :
    (alternation o).accepted? accepts before here = some ⟨.jsxComment, n⟩ ↔
      ∃ taken rest, here = taken ++ rest ∧ taken.length = n ∧ OpensBrace o before taken rest := by
  have listed : .jsxComment ∈ o.branches ↔ o.jsx = true := by
    obtain ⟨jsx, line, hash, regex⟩ := o
    cases jsx <;> cases line <;> cases hash <;> cases regex <;> decide
  have read : find .jsxComment here = some ⟨.jsxComment, n⟩ ↔ jsxComment here = some n := by
    simp [find, Branch.extent]
  rw [acceptedBranch, listed, read]
  constructor
  · intro parts
    obtain ⟨⟨enabled, extent⟩, -, child⟩ := parts
    obtain ⟨taken, rest, rfl, rfl, -⟩ := (jsxTakes here n).mp extent
    exact ⟨taken, rest, rfl, rfl, enabled, extent, child⟩
  · intro parts
    obtain ⟨taken, rest, rfl, rfl, opens⟩ := parts
    refine ⟨⟨opens.enabled, opens.extent⟩, ?_, opens.child⟩
    exact fun empty => opens.filled (List.length_eq_zero_iff.mp empty)

theorem acceptedCases {here : List Char} {found : Find}
    (spoke : (alternation o).accepted? accepts before here = some found) :
    ∃ taken rest, here = taken ++ rest ∧ taken.length = found.width ∧
      (Applies o before found.branch taken rest ∨
        found.branch = .jsxComment ∧ OpensBrace o before taken rest) := by
  obtain ⟨branch, width⟩ := found
  by_cases brace : branch = .jsxComment
  · subst brace
    obtain ⟨taken, rest, same, long, opens⟩ := braceIff.mp spoke
    exact ⟨taken, rest, same, long, .inr ⟨rfl, opens⟩⟩
  · obtain ⟨taken, rest, same, long, applies⟩ := (appliedIff brace).mp spoke
    exact ⟨taken, rest, same, long, .inl applies⟩

theorem passedPlain {here : List Char}
    (passed : (alternation o).accepted? accepts before here = none) :
    (alternation o.withoutBraces).accepted? accepts before here = none := by
  rw [Option.eq_none_iff_forall_ne_some]
  intro found spoke
  obtain ⟨taken, rest, -, -, applies⟩ := (acceptedIff rfl).mp spoke
  rw [(acceptedBraceless (appliesOther applies)).mpr spoke] at passed
  cases passed

theorem passedIff {here : List Char} :
    (alternation o).accepted? accepts before here = none ↔
      (o.jsx = true → readsBrace before here = false) ∧
        ∀ branch, Enabled o branch → Fits before branch here → branch.extent here = none := by
  rw [Option.eq_none_iff_forall_ne_some]
  constructor
  · intro passed
    refine ⟨?_, ?_⟩
    · intro enabled
      rw [Bool.eq_false_iff]
      intro reads
      rw [readsBrace, Bool.and_eq_true] at reads
      obtain ⟨n, extent⟩ := Option.isSome_iff_exists.mp reads.2
      obtain ⟨taken, rest, rfl, rfl, -⟩ := (jsxTakes here n).mp extent
      exact passed _ (braceIff.mpr ⟨taken, rest, rfl, rfl, enabled, extent, reads.1⟩)
    · intro branch enabled fits
      rw [Option.eq_none_iff_forall_ne_some]
      intro n extent
      have other : branch ≠ .jsxComment := by
        intro same
        subst same
        exact enabled
      obtain ⟨taken, rest, rfl, long, lexeme⟩ := (lexemeTakes other here n).mp extent
      exact passed ⟨branch, n⟩ ((appliedIff other).mpr
        ⟨taken, rest, rfl, long, enabled, lexeme, fits⟩)
  · intro parts found spoke
    obtain ⟨none, others⟩ := parts
    obtain ⟨taken, rest, rfl, long, applies | ⟨-, opens⟩⟩ := acceptedCases spoke
    · have extent := (lexemeTakes (appliesOther applies) _ _).mpr
        ⟨taken, rest, rfl, rfl, applies.lexeme⟩
      rw [others found.branch applies.enabled applies.fits] at extent
      cases extent
    · have reads := opens.reads
      rw [none opens.enabled] at reads
      cases reads

end
end CommentStrip.CStyle
