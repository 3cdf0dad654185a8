import CommentStrip.Text.Lines

/-! Line breaks as Python has them: a line feed with or without a carriage return in front of it.
The first line of such a text ends at its first break. -/
namespace CommentStrip.Text

/- Every carriage return has its line feed. -/
def Paired (text : List Char) : Prop :=
  ∀ i : Nat, text[i]? = some '\r' → text[i + 1]? = some '\n'

theorem Paired.behind {s x : List Char} (paired : Paired (s ++ x)) : Paired x := by
  intro i found
  have next := paired (s.length + i) (by rw [List.getElem?_append_right (by omega)]; simpa using found)
  rw [List.getElem?_append_right (by omega)] at next
  simpa [Nat.add_assoc] using next

theorem Paired.across {s x : List Char} (paired : Paired (s ++ x))
    (last : s.getLast? = some '\r') : x.head? = some '\n' := by
  rw [List.getLast?_eq_getElem?] at last
  have nonempty : s.length ≠ 0 := by
    intro empty
    obtain rfl := List.length_eq_zero_iff.mp empty
    simp at last
  have next := paired (s.length - 1) (by rw [List.getElem?_append_left (by omega)]; exact last)
  rw [List.getElem?_append_right (by omega)] at next
  rw [List.head?_eq_getElem?, ← next]
  congr 1
  omega

theorem Paired.line {inner rest : List Char} (paired : Paired (inner ++ '\n' :: rest))
    (within : '\n' ∉ inner) :
    ∃ line carried, inner = line ++ carried ∧ (carried = [] ∨ carried = ['\r']) ∧
      ∀ c ∈ line, isBreak c = false := by
  induction inner with
  | nil => exact ⟨[], [], rfl, .inl rfl, List.forall_mem_nil _⟩
  | cons c inner ih =>
    rw [List.mem_cons, not_or] at within
    by_cases lone : c = '\r'
    · subst lone
      have next := Paired.across (s := ['\r']) paired rfl
      cases inner with
      | nil => exact ⟨[], ['\r'], rfl, .inr rfl, List.forall_mem_nil _⟩
      | cons d inner =>
        obtain rfl := Option.some.inj next
        exact absurd List.mem_cons_self within.2
    · obtain ⟨line, carried, rfl, ends, inLine⟩ := ih (Paired.behind (s := [c]) paired) within.2
      have solid : isBreak c = false := by simp [isBreak, lone, Ne.symm within.1]
      exact ⟨c :: line, carried, rfl, ends, List.forall_mem_cons.mpr ⟨solid, inLine⟩⟩

instance (text : List Char) : Decidable (Paired text) :=
  decidable_of_iff (∀ i : Fin text.length, text[i] = '\r' → text[i.val + 1]? = some '\n') (by
    constructor
    · intro each i found
      obtain ⟨inside, same⟩ := List.getElem?_eq_some_iff.mp found
      exact each ⟨i, inside⟩ same
    · intro paired i same
      exact paired i (List.getElem?_eq_some_iff.mpr ⟨i.isLt, same⟩))

def AtBreak (text : List Char) : Prop := ∀ c, text.head? = some c → isBreak c = true

/- The first line of a text, what ends it, and what follows. A lone carriage return is a character
of the line. -/
structure LineCut (body terminator rest : List Char) : Prop where
  within : '\n' ∉ body
  ends : terminator = [] ∧ rest = [] ∨ terminator = ['\n'] ∧ body.getLast? ≠ some '\r' ∨
    terminator = ['\r', '\n']

theorem LineCut.behind {front body terminator rest : List Char}
    (cut : LineCut body terminator rest) (inLine : '\n' ∉ front)
    (last : body = [] → terminator = ['\n'] → front.getLast? ≠ some '\r') :
    LineCut (front ++ body) terminator rest := by
  refine ⟨by simp [inLine, cut.within], ?_⟩
  rcases cut.ends with none | ⟨feed, solid⟩ | both
  · exact .inl none
  · refine .inr (.inl ⟨feed, ?_⟩)
    cases body with
    | nil => simpa using last rfl feed
    | cons c body =>
      rw [List.getLast?_append]
      simpa [List.getLast?_cons] using solid
  · exact .inr (.inr both)

theorem lineCut (text : List Char) :
    ∃ body terminator rest, text = body ++ terminator ++ rest ∧ LineCut body terminator rest := by
  induction text with
  | nil => exact ⟨[], [], [], rfl, by simp, .inl ⟨rfl, rfl⟩⟩
  | cons c text ih =>
    by_cases feed : c = '\n'
    · subst feed
      exact ⟨[], ['\n'], text, rfl, by simp, .inr (.inl ⟨rfl, by simp⟩)⟩
    · obtain ⟨body, terminator, rest, rfl, cut⟩ := ih
      by_cases joined : body = [] ∧ terminator = ['\n'] ∧ c = '\r'
      · obtain ⟨rfl, rfl, rfl⟩ := joined
        exact ⟨[], ['\r', '\n'], rest, rfl, by simp, .inr (.inr rfl)⟩
      · refine ⟨[c] ++ body, terminator, rest, rfl, cut.behind (by simpa using Ne.symm feed) ?_⟩
        intro empty isFeed last
        exact joined ⟨empty, isFeed, by simpa using last⟩

theorem linesInclusiveFeed {line : List Char} (within : '\n' ∉ line) (rest : List Char) :
    linesInclusive (line ++ '\n' :: rest) = (line ++ ['\n']) :: linesInclusive rest := by
  induction line with
  | nil => simp [linesInclusive]
  | cons c line ih =>
    rw [List.mem_cons, not_or] at within
    rw [List.cons_append, linesInclusive, if_neg (Ne.symm within.1), ih within.2]
    rfl

theorem linesInclusiveLast {line : List Char} (within : '\n' ∉ line) (filled : line ≠ []) :
    linesInclusive line = [line] := by
  induction line with
  | nil => exact absurd rfl filled
  | cons c line ih =>
    rw [List.mem_cons, not_or] at within
    rw [linesInclusive, if_neg (Ne.symm within.1)]
    cases line with
    | nil => rfl
    | cons d line => rw [ih within.2 (by simp)]

theorem LineCut.lines {body terminator rest : List Char} (cut : LineCut body terminator rest)
    (filled : body ++ terminator ≠ []) :
    linesInclusive (body ++ terminator ++ rest) = (body ++ terminator) :: linesInclusive rest := by
  rcases cut.ends with ⟨rfl, rfl⟩ | ⟨rfl, -⟩ | rfl
  · simp only [List.append_nil] at filled ⊢
    rw [linesInclusiveLast cut.within filled]
    rfl
  · rw [List.append_assoc]
    exact linesInclusiveFeed cut.within rest
  · have within : '\n' ∉ body ++ ['\r'] := by simp [cut.within]
    simpa using linesInclusiveFeed within rest

theorem LineCut.split {body terminator rest : List Char} (cut : LineCut body terminator rest) :
    splitTerminator (body ++ terminator) = (body, terminator) := by
  rcases cut.ends with ⟨rfl, rfl⟩ | ⟨rfl, solid⟩ | rfl
  · have noFeed : ∀ behind, body.reverse ≠ '\n' :: behind := by
      intro behind same
      have member : '\n' ∈ body.reverse := by simp [same]
      exact cut.within (List.mem_reverse.mp member)
    rw [List.append_nil, splitTerminator]
    split
    · rename_i same
      exact absurd same (noFeed _)
    · rename_i same
      exact absurd same (noFeed _)
    · rfl
  · rw [List.getLast?_eq_head?_reverse] at solid
    cases backwards : body.reverse with
    | nil =>
      obtain rfl := List.reverse_eq_nil_iff.mp backwards
      rfl
    | cons c behind =>
      have other : c ≠ '\r' := by simpa [backwards] using solid
      have whole : (body ++ ['\n']).reverse = '\n' :: c :: behind := by simp [backwards]
      rw [splitTerminator, whole]
      split
      · rename_i same
        exact absurd (List.cons.inj (List.cons.inj same).2).1 other
      · rename_i same
        rw [← (List.cons.inj same).2, ← backwards, List.reverse_reverse]
      · rename_i notFeed
        exact absurd rfl (notFeed _)
  · simp [splitTerminator]

theorem LineCut.first {body terminator rest : List Char} (cut : LineCut body terminator rest)
    (filled : body ++ terminator ≠ []) :
    Text.lines (body ++ terminator ++ rest) = body :: Text.lines rest := by
  rw [Text.lines, cut.lines filled, List.map_cons, cut.split]
  rfl

theorem lineInduction {motive : List Char → Prop} (empty : motive [])
    (line : ∀ {body terminator rest}, LineCut body terminator rest → body ++ terminator ≠ [] →
      motive rest → motive (body ++ terminator ++ rest)) (text : List Char) : motive text := by
  obtain ⟨body, terminator, rest, rfl, cut⟩ := lineCut text
  by_cases filled : body ++ terminator = []
  · have none : rest = [] := by
      rcases cut.ends with ⟨-, none⟩ | ⟨feed, -⟩ | both
      · exact none
      · simp [feed] at filled
      · simp [both] at filled
    rwa [filled, none]
  · exact line cut filled (lineInduction empty line rest)
termination_by text.length
decreasing_by
  subst text
  have positive := List.length_pos_iff.mpr filled
  rw [List.length_append]
  omega

theorem linesWithin (text : List Char) : ∀ line ∈ lines text, '\n' ∉ line := by
  induction text using lineInduction with
  | empty => exact List.forall_mem_nil _
  | line cut filled ih =>
    rw [cut.first filled]
    exact List.forall_mem_cons.mpr ⟨cut.within, ih⟩

theorem LineCut.atBreak {body terminator rest : List Char} (cut : LineCut body terminator rest) :
    AtBreak (terminator ++ rest) := by
  intro c first
  rcases cut.ends with ⟨rfl, rfl⟩ | ⟨rfl, -⟩ | rfl
  · cases first
  · cases first
    rfl
  · cases first
    rfl

def AtLineEnd (text : List Char) : Prop :=
  text = [] ∨ ∃ rest, text = '\n' :: rest ∨ text = '\r' :: '\n' :: rest

theorem AtLineEnd.cut {text : List Char} (atEnd : AtLineEnd text) :
    ∃ terminator rest, text = terminator ++ rest ∧ LineCut [] terminator rest := by
  rcases atEnd with rfl | ⟨rest, rfl | rfl⟩
  · exact ⟨[], [], rfl, by simp, .inl ⟨rfl, rfl⟩⟩
  · exact ⟨['\n'], rest, rfl, by simp, .inr (.inl ⟨rfl, by simp⟩)⟩
  · exact ⟨['\r', '\n'], rest, rfl, by simp, .inr (.inr rfl)⟩

theorem Paired.atLineEnd {text : List Char} (paired : Paired text) (atBreak : AtBreak text) :
    AtLineEnd text := by
  cases text with
  | nil => exact .inl rfl
  | cons c text =>
    have first := atBreak c rfl
    simp only [isBreak, Bool.or_eq_true, beq_iff_eq] at first
    rcases first with rfl | rfl
    · exact .inr ⟨text, .inl rfl⟩
    · obtain ⟨rest, rfl⟩ := List.head?_eq_some_iff.mp (Paired.across (s := ['\r']) paired rfl)
      exact .inr ⟨rest, .inr rfl⟩

theorem startsWithApart {head : List Char} (line : List Char) {x : List Char}
    (apart : ∀ c, x.head? = some c → c ∉ head) :
    startsWith head (line ++ x) = startsWith head line := by
  induction head generalizing line with
  | nil => simp [startsWith, Text.after]
  | cons h head ih =>
    cases line with
    | nil =>
      cases x with
      | nil => rfl
      | cons d x =>
        have other : h ≠ d := by
          intro same
          subst same
          exact apart h rfl List.mem_cons_self
        simp [startsWith, Text.after, other]
    | cons d line =>
      have later := ih line (fun c first member => apart c first (List.mem_cons_of_mem h member))
      by_cases same : h = d
      · simpa [startsWith, Text.after, same] using later
      · simp [startsWith, Text.after, same]

end CommentStrip.Text
