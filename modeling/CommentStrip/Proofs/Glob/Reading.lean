import CommentStrip.Proofs.Glob.ClassBody

/-! What the expression of a glob is read as: one part after the other, between the start and the
end of the text. -/
namespace CommentStrip

namespace Glob
open Pattern (CharSet)

inductive Part where
  | star
  | one (set : CharSet)
  deriving DecidableEq, Repr

def noFeed : CharSet := .compl (.single '\n')

def Part.pattern : Part → Pattern
  | .star => .rep 0 none (.char noFeed)
  | .one set => .char set

/- The parts that a glob spells. The set of a class is what its items are read as. -/
inductive Spelled : List Char → List Part → Prop
  | nil : Spelled [] []
  | star {rest parts} (later : Spelled (rest.dropWhile (· == '*')) parts) :
      Spelled ('*' :: rest) (.star :: parts)
  | any {rest parts} (later : Spelled rest parts) : Spelled ('?' :: rest) (.one noFeed :: parts)
  | items {rest items parts site more meant behind} (known : classItems? rest = some items)
      (whole : Pattern.Site.rest site = '[' :: (classBody items ++ ']' :: more))
      (read : Pattern.readClass .initial site = .ok (meant, behind))
      (later : Spelled (rest.drop (items.length + 1)) parts) :
      Spelled ('[' :: rest) (.one meant.value :: parts)
  | plain {c rest parts} (star : c ≠ '*') (any : c ≠ '?')
      (items : c = '[' → classItems? rest = none) (later : Spelled rest parts) :
      Spelled (c :: rest) (.one (.single c) :: parts)

theorem metaSame (c : Char) : isMeta c = Pattern.isMeta c := rfl

theorem classItemsCut {rest items : List Char} (known : classItems? rest = some items) :
    (∃ more, rest = items ++ ']' :: more ∧ rest.drop (items.length + 1) = more) ∧ ']' ∉ items ∧
      items ≠ [] ∧ items ≠ ['!'] := by
  simp only [classItems?] at known
  split at known
  · cases known
  · rename_i proper
    obtain ⟨short, proper⟩ := not_or.mp proper
    obtain ⟨some, others⟩ := not_or.mp proper
    have cut : rest.takeWhile (· != ']') ++ rest.dropWhile (· != ']') = rest :=
      List.takeWhile_append_dropWhile
    have last := List.head?_dropWhile_not (· != ']') rest
    have free := List.all_eq_true.mp (List.all_takeWhile (p := (· != ']')) (l := rest))
    rw [Option.some.inj known] at cut short some others free
    refine ⟨?_, fun listed => by simpa using free _ listed, some, others⟩
    cases later : rest.dropWhile (· != ']') with
    | nil =>
      rw [later, List.append_nil] at cut
      exact absurd (congrArg List.length cut) short
    | cons c more =>
      rw [later] at cut last
      have same : c = ']' := by simpa using last
      subst same
      refine ⟨more, cut.symm, ?_⟩
      rw [← cut, ← List.drop_drop, List.drop_left]
      rfl

end Glob

namespace Pattern
variable {st st' : State} {s s' : Site} {c : Char} {more : List Char} {p : Pattern}

theorem readStep (plain : st.flags.verbose = false) (whole : s.rest = c :: more)
    (taken : step st c s = .ok (st', s')) (moved : s'.rest.length < s.rest.length) :
    readFrom st s = readFrom st' s' := by
  rw [readFrom, plain, Site.spacesPlain, whole]
  simp only [taken]
  rw [← whole, if_pos moved]

theorem readOne (flags : st.flags = .initial) (whole : s.rest = c :: more)
    (taken : step st c s = .ok (st', s.advance 1)) :
    readFrom st s = readFrom st' (s.advance 1) := by
  refine readStep (by rw [flags, initialPlain]) whole taken ?_
  rw [(Site.advanceOne whole).1, whole]
  exact Nat.lt_succ_self _

theorem atomPlain (plain : isMeta c = false) :
    atom false c s = .ok (.literal c false, s.advance 1) := by
  unfold atom
  split <;> first | rfl | exact absurd plain (by decide)

theorem readLiteral (flags : st.flags = .initial) (whole : s.rest = Glob.escaped c ++ more) :
    readFrom st s =
      readFrom (st.push (.sound (.char (.single c)))) (s.advance (Glob.escaped c).length) := by
  have verbose : st.flags.verbose = false := by rw [flags, initialPlain]
  unfold Glob.escaped at whole ⊢
  rw [Glob.metaSame] at whole ⊢
  by_cases special : isMeta c = true
  · rw [if_pos special] at whole ⊢
    have meant : step st '\\' s = .ok (st.push (.sound (.char (.single c))), s.advance 2) := by
      simp only [step, flags, atom, initialPlain]
      rw [escapeMeta special whole]
      rfl
    refine readStep verbose whole meant ?_
    rw [Site.advanceRest whole, whole, List.length_append]
    exact Nat.lt_add_of_pos_left (Nat.succ_pos _)
  · rw [if_neg special] at whole ⊢
    have plain := Bool.eq_false_iff.mpr special
    have meant : step st c s = .ok (st.push (.sound (.char (.single c))), s.advance 1) := by
      unfold step
      split <;> first | exact absurd plain (by decide) | skip
      simp only [flags, initialPlain, atomPlain plain]
      rfl
    exact readOne flags whole meant

theorem readDot (flags : st.flags = .initial) (whole : s.rest = '.' :: more) :
    readFrom st s = readFrom (st.push (.sound (.char Glob.noFeed))) (s.advance 1) := by
  have meant : step st '.' s = .ok (st.push (.sound (.char Glob.noFeed)), s.advance 1) := by
    simp only [step, flags]
    rfl
  exact readOne flags whole meant

theorem pushSound (st : State) (p : Pattern) :
    st.push (.sound p) = { st with items := .node p :: st.items } := by
  simp [State.push, Meant.sound]

theorem readRepeat (flags : st.flags = .initial) {items : List Item} {least : Nat}
    {most : Option Nat} (latest : st.items = .node p :: items)
    (sign : step st c s = readRepetition least most st s) (whole : s.rest = c :: more)
    (greedy : more.head? ≠ some '?') :
    readFrom st s =
      readFrom { st with items := .node (.rep least most p) :: items } (s.advance 1) := by
  have still : skipLazy (s.advance 1) = s.advance 1 := by
    rw [skipLazy, Site.char?, (Site.advanceOne whole).1, if_neg greedy]
  have meant : step st c s =
      .ok ({ st with items := .node (.rep least most p) :: items }, s.advance 1) := by
    rw [sign, readRepetition, repeated, latest]
    simp only [bind, Except.bind, still, pushSound]
    rfl
  exact readOne flags whole meant

theorem readDotStar (flags : st.flags = .initial) (whole : s.rest = '.' :: '*' :: more)
    (greedy : more.head? ≠ some '?') :
    readFrom st s = readFrom (st.push (.sound Glob.Part.star.pattern)) (s.advance 2) := by
  have dotted : (st.push (.sound (.char Glob.noFeed))).flags = .initial := flags
  rw [readDot flags whole, readRepeat dotted rfl rfl (Site.advanceOne whole).1 greedy, pushSound,
    pushSound, Site.advanceTwice]
  rfl

def State.taken (st : State) (parts : List Glob.Part) (fault : Option Fault) : State :=
  { st with
    items := (parts.map fun part => Item.node part.pattern).reverse ++ st.items, fault := fault }

def ReadOn (glob : List Char) (st : State) (p : Pattern) : Prop :=
  ∃ parts fault s', Glob.Spelled glob parts ∧ Site.rest s' = ['$'] ∧
    readFrom (st.taken parts fault) s' = .ok p

theorem ReadOn.push {glob rest : List Char} (part : Glob.Part) {meant : Meant Pattern}
    (same : meant.value = part.pattern) (later : ReadOn rest (st.push meant) p)
    (spelled : ∀ {parts}, Glob.Spelled rest parts → Glob.Spelled glob (part :: parts)) :
    ReadOn glob st p := by
  obtain ⟨parts, fault, s', tail, last, read⟩ := later
  refine ⟨part :: parts, fault, s', spelled tail, last, ?_⟩
  rw [← read]
  simp [State.taken, State.push, same]

theorem notLazy (glob : List Char) : (Glob.expressionFrom glob ++ ['$']).head? ≠ some '?' := by
  fun_cases Glob.expressionFrom glob with
  | case1 | case2 | case3 | case4 | case5 => simp
  | case6 c rest star any items =>
    unfold Glob.escaped
    split
    · simp
    · simpa using any

theorem readClassStep (flags : st.flags = .initial) (whole : s.rest = '[' :: more)
    (read : readFrom st s = .ok p) :
    ∃ meant behind, readClass .initial s = .ok (meant, behind) ∧
      (behind.rest.length < s.rest.length →
        readFrom (st.push ⟨.char meant.value, meant.fault⟩) behind = .ok p) := by
  cases taken : readClass .initial s with
  | error fault =>
    have failed : step st '[' s = .error fault := by
      simp only [step, flags, taken]
      rfl
    rw [readFrom, flags, initialPlain, Site.spacesPlain, whole] at read
    simp only [failed] at read
    cases read
  | ok pair =>
    obtain ⟨meant, behind⟩ := pair
    have stepped : step st '[' s = .ok (st.push ⟨.char meant.value, meant.fault⟩, behind) := by
      simp only [step, flags, taken]
      rfl
    exact ⟨meant, behind, rfl, fun moved =>
      readStep (by rw [flags]; rfl) whole stepped moved ▸ read⟩

theorem readParts {glob : List Char} (flags : st.flags = .initial)
    (whole : s.rest = Glob.expressionFrom glob ++ ['$']) (read : readFrom st s = .ok p) :
    ReadOn glob st p := by
  induction glob using Glob.expressionFrom.induct generalizing st s with
  | case1 => exact ⟨[], st.fault, s, .nil, by rw [whole, Glob.expressionFrom]; rfl, read⟩
  | case2 rest ih =>
    rw [Glob.expressionFrom] at whole
    rw [readDotStar flags whole (notLazy _)] at read
    have behind := Site.advanceOne (Site.advanceOne whole).1
    rw [Site.advanceTwice] at behind
    exact .push .star rfl (@ih (st.push (.sound _)) _ flags behind.1 read) .star
  | case3 rest ih =>
    rw [Glob.expressionFrom] at whole
    rw [readDot flags whole] at read
    have later := @ih (st.push (.sound _)) _ flags (Site.advanceOne whole).1 read
    exact .push (.one Glob.noFeed) rfl later .any
  | case4 rest items known ih =>
    obtain ⟨⟨more, split, behind⟩, inside, some, others⟩ := Glob.classItemsCut known
    rw [Glob.expressionFrom, known] at whole
    simp only [List.cons_append, List.append_assoc] at whole
    obtain ⟨meant, site, taken, on⟩ := readClassStep flags whole read
    have rest := readClassBehind rfl whole inside some others taken
    have moved : site.rest.length < s.rest.length := by
      rw [rest, whole]
      simp only [List.length_cons, List.length_append]
      omega
    have later := @ih (st.push ⟨.char meant.value, meant.fault⟩) site flags rest (on moved)
    exact .push (.one meant.value) rfl later (.items known whole taken)
  | case5 rest none ih =>
    rw [Glob.expressionFrom, none] at whole
    replace whole : s.rest = Glob.escaped '[' ++ (Glob.expressionFrom rest ++ ['$']) := whole
    rw [readLiteral flags whole] at read
    have later := @ih (st.push (.sound _)) _ flags (Site.advanceRest whole) read
    exact .push (.one (.single '[')) rfl later (.plain (by decide) (by decide) fun _ => none)
  | case6 c rest star any items ih =>
    have unfolded : Glob.expressionFrom (c :: rest) =
        Glob.escaped c ++ Glob.expressionFrom rest := by
      rw [Glob.expressionFrom] <;> assumption
    rw [unfolded, List.append_assoc] at whole
    rw [readLiteral flags whole] at read
    have later := @ih (st.push (.sound _)) _ flags (Site.advanceRest whole) read
    exact .push (.one (.single c)) rfl later
      (.plain star any fun bracket => absurd bracket items)

def inOrder (patterns : List Pattern) : Pattern := patterns.foldr .seq .empty

theorem sequenceOrder (patterns : List Pattern) :
    State.sequence (patterns.map Item.node).reverse = inOrder patterns := by
  rw [State.sequence, List.foldl_reverse, List.foldr_map]
  rfl

theorem bodyOrder {patterns : List Pattern} (alternatives : st.alternatives = [])
    (items : st.items = (patterns.map Item.node).reverse) : st.body = inOrder patterns := by
  rw [State.body, alternatives, items, List.foldl_nil, sequenceOrder]

theorem readDollar (flags : st.flags = .initial) (whole : s.rest = ['$']) :
    readFrom st s = finish (st.push (.sound (.look .textEnd))) := by
  have meant : step st '$' s = .ok (st.push (.sound (.look .textEnd)), s.advance 1) := by
    simp only [step, flags]
    rfl
  have verbose : (st.push (.sound (.look .textEnd))).flags.verbose = false := by
    rw [pushSound, flags, initialPlain]
  rw [readOne flags whole meant, readFrom, verbose, Site.spacesPlain, (Site.advanceOne whole).1]

theorem closedOrder {patterns : List Pattern}
    (items : st.items = (patterns.map Item.node).reverse) (alternatives : st.alternatives = []) :
    (st.push (.sound (.look .textEnd))).body = inOrder (patterns ++ [.look .textEnd]) := by
  refine bodyOrder alternatives ?_
  rw [pushSound, List.map_append, List.reverse_append, ← items]
  rfl

theorem readEnd {patterns : List Pattern} (read : readFrom st s = .ok p)
    (flags : st.flags = .initial) (items : st.items = (patterns.map Item.node).reverse)
    (groups : st.groups = []) (alternatives : st.alternatives = []) (whole : s.rest = ['$']) :
    p = inOrder (patterns ++ [.look .textEnd]) := by
  rw [readDollar flags whole, finish, show (st.push _).groups = [] from groups] at read
  simp only at read
  split at read
  · cases read
  · rw [← closedOrder items alternatives]
    exact (Except.ok.inj read).symm

theorem readSound {patterns : List Pattern} (flags : st.flags = .initial)
    (items : st.items = (patterns.map Item.node).reverse) (groups : st.groups = [])
    (alternatives : st.alternatives = []) (sound : st.fault = none) (whole : s.rest = ['$']) :
    readFrom st s = .ok (inOrder (patterns ++ [.look .textEnd])) := by
  have still : (st.push (.sound (.look .textEnd))).fault = none := by rw [pushSound, sound]
  rw [readDollar flags whole, finish, show (st.push _).groups = [] from groups]
  simp only [still]
  rw [closedOrder items alternatives]

theorem readRest (front : List Pattern) {glob : List Char} (read : readFrom st s = .ok p)
    (flags : st.flags = .initial) (items : st.items = (front.map Item.node).reverse)
    (groups : st.groups = []) (alternatives : st.alternatives = [])
    (whole : s.rest = Glob.expressionFrom glob ++ ['$']) :
    ∃ parts, Glob.Spelled glob parts ∧
      p = inOrder (front ++ parts.map Glob.Part.pattern ++ [.look .textEnd]) := by
  obtain ⟨parts, fault, last, spelled, dollar, done⟩ := readParts flags whole read
  refine ⟨parts, spelled, readEnd done flags ?_ groups alternatives dollar⟩
  simp [State.taken, items, Function.comp_def]

theorem readStart (flags : st.flags = .initial) (whole : s.rest = '^' :: more) :
    readFrom st s = readFrom (st.push (.sound (.look .textStart))) (s.advance 1) := by
  have meant : step st '^' s = .ok (st.push (.sound (.look .textStart)), s.advance 1) := by
    simp only [step, flags]
    rfl
  exact readOne flags whole meant

theorem readOpen (flags : st.flags = .initial) (whole : s.rest = '(' :: '?' :: ':' :: more) :
    readFrom st s = readFrom (st.openGroup s.glyph st.flags) (s.advance 3) := by
  have verbose : st.flags.verbose = false := by rw [flags, initialPlain]
  have inside := (Site.advanceOne whole).1
  have first := (Site.advanceOne inside).1
  have colon := Site.charHead first
  have other : ∀ word ∈ ["?=", "?!", "?<=", "?<!", "?P<", "?<"],
      Text.startsWith word.toList ('?' :: ':' :: more) = false := by
    simp only [List.forall_mem_cons]
    exact ⟨rfl, rfl, rfl, rfl, rfl, rfl, nofun⟩
  simp only [List.forall_mem_cons] at other
  obtain ⟨ahead, notAhead, behind, notBehind, named, angle, -⟩ := other
  have listed : flagList ⟨st.flags, [], none, none⟩ ((s.advance 1).advance 1) =
      .ok (⟨st.flags, [], none, none⟩, (s.advance 1).advance 1) := by
    rw [flagList, first]
    rfl
  have meant : step st '(' s = .ok (st.openGroup s.glyph st.flags, s.advance 3) := by
    simp only [step, readGroup, verbose, Site.spacesPlain, lookAroundWidth, Site.starts, inside,
      ahead, notAhead, behind, notBehind, named, angle, Site.charHead inside, Site.atEnd, first,
      listed, bind, Except.bind, colon]
    show Except.ok (st.openGroup s.glyph st.flags, ((s.advance 1).advance 1).advance 1) = _
    rw [Site.advanceTwice, Site.advanceAdd]
  refine readStep verbose whole meant ?_
  simp only [Site.advance, whole, List.length_drop, List.length_cons]
  omega

def directories : Pattern := inOrder [Glob.Part.star.pattern, .char (.single '/')]

theorem readClose (flags : st.flags = .initial) (closed : st.closeGroup = some st')
    (whole : s.rest = ')' :: more) : readFrom st s = readFrom st' (s.advance 1) := by
  have meant : step st ')' s = .ok (st', s.advance 1) := by
    simp only [step, closed]
    rfl
  exact readOne flags whole meant

theorem readDirectories (flags : st.flags = .initial)
    (whole : s.rest = Glob.anyDirectories ++ more) (greedy : more.head? ≠ some '?') :
    readFrom st s = readFrom (st.push (.sound (.rep 0 (some 1) directories)))
      (s.advance Glob.anyDirectories.length) := by
  have star : (s.advance 3).rest = '.' :: '*' :: '/' :: ')' :: '?' :: more := by
    rw [Site.advance, whole]
    rfl
  have slash : (s.advance 5).rest = Glob.escaped '/' ++ ')' :: '?' :: more := by
    rw [Site.advance, whole]
    rfl
  have closing : (s.advance 6).rest = ')' :: '?' :: more := by
    rw [Site.advance, whole]
    rfl
  have sign : (s.advance 7).rest = '?' :: more := by
    rw [Site.advance, whole]
    rfl
  let opened := st.openGroup s.glyph st.flags
  let starred : State := { opened with items := [.node Glob.Part.star.pattern] }
  let inside : State := { starred with items := .node (.char (.single '/')) :: starred.items }
  let grouped : State := { st with items := .node directories :: st.items }
  have closed : inside.closeGroup = some grouped := by
    have body : inside.body = directories := bodyOrder rfl rfl
    show some { st with items := .node inside.body :: st.items } = some grouped
    rw [body]
  have openedFlags : opened.flags = .initial := flags
  have starredFlags : starred.flags = .initial := flags
  have insideFlags : inside.flags = .initial := flags
  have groupedFlags : grouped.flags = .initial := flags
  calc readFrom st s = readFrom opened (s.advance 3) := readOpen flags whole
    _ = readFrom starred (s.advance 5) := by
      rw [readDotStar openedFlags star (by simp), pushSound, Site.advanceAdd]
      rfl
    _ = readFrom inside (s.advance 6) := by
      rw [readLiteral starredFlags slash, pushSound, Site.advanceAdd]
      rfl
    _ = readFrom grouped (s.advance 7) := by
      rw [readClose insideFlags closed closing, Site.advanceAdd]
    _ = readFrom (st.push (.sound (.rep 0 (some 1) directories))) (s.advance 8) := by
      rw [readRepeat groupedFlags rfl rfl sign greedy, pushSound, Site.advanceAdd]

end Pattern

namespace Glob

def body (glob : List Char) : List Char := (Text.after ['*', '*', '/'] glob).getD glob

def anywhere (glob : List Char) : Bool := (Text.after ['*', '*', '/'] glob).isSome

def wholePattern (anywhere : Bool) (parts : List Part) : Pattern :=
  Pattern.inOrder (.look .textStart :: ((if anywhere then [.rep 0 (some 1) Pattern.directories]
    else []) ++ parts.map Part.pattern ++ [.look .textEnd]))

theorem readGlob {glob : List Char} {p : Pattern} (read : Pattern.read (expression glob) = .ok p) :
    ∃ parts, Spelled (body glob) parts ∧ p = wholePattern (anywhere glob) parts := by
  rw [Pattern.read] at read
  unfold body anywhere
  cases found : Text.after ['*', '*', '/'] glob with
  | none =>
    have start : (Pattern.Site.start (expression glob)).rest =
        '^' :: (expressionFrom glob ++ ['$']) := by
      rw [expression, found]
      rfl
    rw [Pattern.readStart rfl start] at read
    exact Pattern.readRest [.look .textStart] read rfl rfl rfl rfl
      (Pattern.Site.advanceOne start).1
  | some rest =>
    have start : (Pattern.Site.start (expression glob)).rest =
        '^' :: (anyDirectories ++ (expressionFrom rest ++ ['$'])) := by
      rw [expression, found, ← List.append_assoc]
      rfl
    have behind := (Pattern.Site.advanceOne start).1
    rw [Pattern.readStart rfl start, Pattern.readDirectories rfl behind (Pattern.notLazy rest)]
      at read
    exact Pattern.readRest [.look .textStart, .rep 0 (some 1) Pattern.directories] read rfl rfl rfl
      rfl (Pattern.Site.advanceRest behind)

end Glob
end CommentStrip
