import CommentStrip.Pattern.Occurrence
import Mathlib.Logic.Function.Iterate

/-! The search marks exactly the places that a pattern leads to. A repetition may be cut short
because idle rounds can be left out, and every other round moves on. -/
namespace CommentStrip.Pattern

def Ranged : Pattern → Prop
  | .empty | .char _ | .look _ => True
  | .seq p q | .alt p q => p.Ranged ∧ q.Ranged
  | .rep least most p => (∀ bound, most = some bound → least ≤ bound) ∧ p.Ranged

variable {text : List Char} {p : Pattern} {i j k : Nat}

theorem Between.order (between : Between text p i j) : i ≤ j ∧ j ≤ text.length := by
  induction between with
  | empty inside => exact ⟨Nat.le_refl _, inside⟩
  | char there holds => exact ⟨Nat.le_succ _, (List.getElem?_eq_some_iff.mp there).1⟩
  | look inside holds => exact ⟨Nat.le_refl _, inside⟩
  | seq _ _ first second => exact ⟨Nat.le_trans first.1 second.1, second.2⟩
  | left _ one => exact one
  | right _ one => exact one
  | stop inside => exact ⟨Nat.le_refl _, inside⟩
  | more _ _ first later => exact ⟨Nat.le_trans first.1 later.1, later.2⟩
  | owed _ _ first later => exact ⟨Nat.le_trans first.1 later.1, later.2⟩

def Times (text : List Char) (p : Pattern) : Nat → Nat → Nat → Prop
  | 0, i, k => i = k ∧ i ≤ text.length
  | n + 1, i, k => ∃ j, Between text p i j ∧ Times text p n j k

theorem Times.order {n : Nat} (times : Times text p n i k) : i ≤ k ∧ k ≤ text.length := by
  induction n generalizing i with
  | zero => exact ⟨Nat.le_of_eq times.1, times.1 ▸ times.2⟩
  | succ n ih =>
    obtain ⟨j, one, later⟩ := times
    exact ⟨Nat.le_trans one.order.1 (ih later).1, (ih later).2⟩

/- Rounds that stay where they are can be left out, and there are no more others than places. -/
theorem Times.short {n : Nat} (times : Times text p n i k) :
    ∃ m ≤ k - i, m ≤ n ∧ Times text p m i k := by
  induction n generalizing i with
  | zero => exact ⟨0, Nat.zero_le _, Nat.le_refl _, times⟩
  | succ n ih =>
    obtain ⟨j, one, later⟩ := times
    obtain ⟨m, few, below, short⟩ := ih later
    have first := one.order.1
    have second := later.order.1
    by_cases idle : i = j
    · subst idle
      exact ⟨m, few, by omega, short⟩
    · exact ⟨m + 1, by omega, by omega, j, one, short⟩

theorem repIff {least : Nat} {most : Option Nat} : Between text (.rep least most p) i k ↔
    ∃ n, least ≤ n ∧ (∀ bound, most = some bound → n ≤ bound) ∧ Times text p n i k := by
  constructor
  · intro between
    generalize whole : Pattern.rep least most p = q at between
    induction between generalizing least most with
    | stop inside =>
      cases whole
      exact ⟨0, Nat.le_refl _, fun _ _ => Nat.zero_le _, rfl, inside⟩
    | @more most p i j k one _ _ ih =>
      cases whole
      obtain ⟨n, -, few, times⟩ := ih rfl
      refine ⟨n + 1, Nat.zero_le _, ?_, j, one, times⟩
      intro bound known
      obtain ⟨fewer, rfl, rfl⟩ := Option.map_eq_some_iff.mp known
      exact Nat.succ_le_succ (few fewer rfl)
    | @owed least most p i j k one _ _ ih =>
      cases whole
      obtain ⟨n, enough, few, times⟩ := ih rfl
      refine ⟨n + 1, Nat.succ_le_succ enough, ?_, j, one, times⟩
      intro bound known
      obtain ⟨fewer, rfl, rfl⟩ := Option.map_eq_some_iff.mp known
      exact Nat.succ_le_succ (few fewer rfl)
    | empty | char | look | seq | left | right => cases whole
  · rintro ⟨n, enough, few, times⟩
    induction n generalizing least most i with
    | zero =>
      obtain rfl := Nat.le_zero.mp enough
      obtain ⟨rfl, inside⟩ := times
      exact .stop inside
    | succ n ih =>
      obtain ⟨j, one, later⟩ := times
      obtain ⟨fewer, rfl, below⟩ : ∃ fewer : Option Nat, most = fewer.map (· + 1) ∧
          ∀ bound, fewer = some bound → n ≤ bound := by
        cases most with
        | none => exact ⟨none, rfl, nofun⟩
        | some bound =>
          have above := few bound rfl
          refine ⟨some (bound - 1), ?_, ?_⟩
          · rw [Option.map_some, Nat.sub_add_cancel (by omega)]
          · intro other same
            cases same
            omega
      cases least with
      | zero => exact .more one (ih (Nat.zero_le _) below later)
      | succ least => exact .owed one (ih (Nat.le_of_succ_le_succ enough) below later)

def Marks.At (marks : Marks) (i : Nat) : Prop := marks[i]? = some true

theorem Marks.atEither {a b : Marks} (same : a.length = b.length) :
    (a.either b).At i ↔ a.At i ∨ b.At i := by
  simp only [At, either, List.getElem?_zipWith]
  cases inA : a[i]? with
  | none =>
    have inB : b[i]? = none := List.getElem?_eq_none (same ▸ List.getElem?_eq_none_iff.mp inA)
    simp [inB]
  | some x =>
    have inside : i < b.length := same ▸ (List.getElem?_eq_some_iff.mp inA).1
    simp [List.getElem?_eq_getElem inside]

theorem roundsIterate (f : Marks → Marks) (n : Nat) (marks : Marks) :
    rounds f n marks = f^[n] marks := by
  induction n generalizing marks with
  | zero => rfl
  | succ n ih =>
    rw [rounds]
    split
    · rename_i still
      exact (Function.iterate_fixed still _).symm
    · exact ih _

theorem lookMarksAt (condition : Look) (before : Option Char) (text : List Char) (i : Nat) :
    (lookMarks condition before text)[i]? =
      if i ≤ text.length then
        some (condition.holds (if i = 0 then before else text[i - 1]?) text[i]?)
      else none := by
  induction text generalizing before i with
  | nil => cases i <;> simp [lookMarks]
  | cons c rest ih =>
    cases i with
    | zero => simp [lookMarks]
    | succ i =>
      rw [lookMarks, List.getElem?_cons_succ, ih]
      cases i <;> simp

structure Follows (text : List Char) (f : Marks → Marks) (leads : Nat → Nat → Prop) : Prop where
  length : ∀ marks, marks.length = text.length + 1 → (f marks).length = text.length + 1
  marked : ∀ marks, marks.length = text.length + 1 →
    ∀ j, (f marks).At j ↔ ∃ i, marks.At i ∧ leads i j

theorem Marks.atInside {marks : Marks} (whole : marks.length = text.length + 1)
    (marked : marks.At i) : i ≤ text.length := by
  have inside := (List.getElem?_eq_some_iff.mp marked).1
  omega

theorem Follows.iterate {f : Marks → Marks} (follows : Follows text f (Between text p)) (n : Nat) :
    Follows text f^[n] (Times text p n) := by
  induction n with
  | zero =>
    refine ⟨fun marks whole => whole, fun marks whole j => ⟨fun marked => ?_, ?_⟩⟩
    · exact ⟨j, marked, rfl, Marks.atInside whole marked⟩
    · rintro ⟨i, marked, rfl, -⟩
      exact marked
  | succ n ih =>
    refine ⟨fun marks whole => ?_, fun marks whole j => ?_⟩
    · exact ih.length _ (follows.length marks whole)
    · rw [Function.iterate_succ_apply, ih.marked _ (follows.length marks whole)]
      constructor
      · rintro ⟨next, marked, later⟩
        obtain ⟨i, marked, one⟩ := (follows.marked marks whole next).mp marked
        exact ⟨i, marked, next, one, later⟩
      · rintro ⟨i, marked, next, one, later⟩
        exact ⟨next, (follows.marked marks whole next).mpr ⟨i, marked, one⟩, later⟩

theorem Follows.upTo {f : Marks → Marks} (follows : Follows text f (Between text p)) (n : Nat) :
    Follows text (fun marks => marks.either (f marks))^[n]
      (fun i k => ∃ m ≤ n, Times text p m i k) := by
  have either (marks : Marks) (whole : marks.length = text.length + 1) :
      marks.length = (f marks).length := whole.trans (follows.length marks whole).symm
  have length (marks : Marks) (whole : marks.length = text.length + 1) :
      (marks.either (f marks)).length = text.length + 1 := by
    rw [Marks.either, List.length_zipWith, ← either marks whole, Nat.min_self, whole]
  induction n with
  | zero =>
    refine ⟨fun marks whole => whole, fun marks whole j => ⟨fun marked => ?_, ?_⟩⟩
    · exact ⟨j, marked, 0, Nat.le_refl _, rfl, Marks.atInside whole marked⟩
    · rintro ⟨i, marked, m, few, times⟩
      obtain rfl := Nat.le_zero.mp few
      exact times.1 ▸ marked
  | succ n ih =>
    refine ⟨fun marks whole => ?_, fun marks whole j => ?_⟩
    · exact ih.length _ (length marks whole)
    · rw [Function.iterate_succ_apply, ih.marked _ (length marks whole)]
      constructor
      · rintro ⟨next, marked, m, few, later⟩
        rcases (Marks.atEither (either marks whole)).mp marked with here | marked
        · exact ⟨next, here, m, Nat.le_succ_of_le few, later⟩
        · obtain ⟨i, marked, one⟩ := (follows.marked marks whole next).mp marked
          exact ⟨i, marked, m + 1, Nat.succ_le_succ few, next, one, later⟩
      · rintro ⟨i, marked, m, few, times⟩
        cases m with
        | zero =>
          exact ⟨i, (Marks.atEither (either marks whole)).mpr (.inl marked), 0, Nat.zero_le _, times⟩
        | succ m =>
          obtain ⟨next, one, later⟩ := times
          refine ⟨next, (Marks.atEither (either marks whole)).mpr (.inr ?_), m,
            Nat.le_of_succ_le_succ few, later⟩
          exact (follows.marked marks whole next).mpr ⟨i, marked, one⟩

theorem timesAppend {m n : Nat} : Times text p (m + n) i k ↔
    ∃ j, Times text p m i j ∧ Times text p n j k := by
  induction m generalizing i with
  | zero =>
    rw [Nat.zero_add]
    constructor
    · intro times
      exact ⟨i, ⟨rfl, Nat.le_trans times.order.1 times.order.2⟩, times⟩
    · rintro ⟨j, ⟨rfl, -⟩, times⟩
      exact times
  | succ m ih =>
    rw [Nat.succ_add]
    simp only [Times, ih]
    constructor
    · rintro ⟨next, one, j, first, second⟩
      exact ⟨j, ⟨next, one, first⟩, second⟩
    · rintro ⟨j, ⟨next, one, first⟩, second⟩
      exact ⟨next, one, j, first, second⟩

theorem reachChar (set : CharSet) :
    Follows text (reach text (.char set)) (Between text (.char set)) := by
  refine ⟨fun marks whole => ?_, fun marks whole j => ?_⟩
  · rw [reach, List.length_cons, List.length_zipWith, whole, Nat.min_eq_left (Nat.le_succ _)]
  · constructor
    · intro marked
      cases j with
      | zero => cases marked
      | succ j =>
        rw [reach, Marks.At, List.getElem?_cons_succ, List.getElem?_zipWith_eq_some] at marked
        obtain ⟨c, here, there, marked, both⟩ := marked
        obtain ⟨rfl, holds⟩ := Bool.and_eq_true_iff.mp both
        exact ⟨j, marked, .char there holds⟩
    · rintro ⟨i, marked, between⟩
      cases between with
      | char there holds =>
        rw [reach, Marks.At, List.getElem?_cons_succ, List.getElem?_zipWith_eq_some]
        exact ⟨_, true, there, marked, holds⟩

theorem reachLook (condition : Look) :
    Follows text (reach text (.look condition)) (Between text (.look condition)) := by
  have marks (i : Nat) : (lookMarks condition none text)[i]? =
      if i ≤ text.length then some (condition.holds (charBefore text i) text[i]?) else none :=
    lookMarksAt condition none text i
  have length : (lookMarks condition none text).length = text.length + 1 := by
    refine Nat.le_antisymm (List.getElem?_eq_none_iff.mp ?_) (Nat.lt_of_not_le fun short => ?_)
    · rw [marks, if_neg (Nat.not_succ_le_self _)]
    · have beyond := List.getElem?_eq_none_iff.mpr short
      rw [marks, if_pos (Nat.le_refl _)] at beyond
      cases beyond
  refine ⟨fun marks whole => ?_, fun given whole j => ?_⟩
  · rw [reach, List.length_zipWith, length, whole, Nat.min_self]
  · constructor
    · intro marked
      rw [reach, Marks.At, List.getElem?_zipWith_eq_some] at marked
      obtain ⟨holds, here, known, marked, both⟩ := marked
      obtain ⟨rfl, rfl⟩ := Bool.and_eq_true_iff.mp both
      have inside := Marks.atInside whole marked
      rw [marks, if_pos inside] at known
      exact ⟨j, marked, .look inside (Option.some.inj known)⟩
    · rintro ⟨i, marked, between⟩
      cases between with
      | look inside holds =>
        rw [reach, Marks.At, List.getElem?_zipWith_eq_some]
        exact ⟨_, true, by rw [marks, if_pos inside, holds], marked, rfl⟩

theorem reachRep {least : Nat} {most : Option Nat}
    (follows : Follows text (reach text p) (Between text p))
    (ranged : ∀ bound, most = some bound → least ≤ bound) :
    Follows text (reach text (.rep least most p)) (Between text (.rep least most p)) := by
  have owed := follows.iterate least
  have unfolded (marks : Marks) : reach text (.rep least most p) marks =
      (fun marks => marks.either (reach text p marks))^[most.elim (text.length + 1) (· - least)]
        ((reach text p)^[least] marks) := by
    rw [← roundsIterate, ← roundsIterate]
    cases most <;> rfl
  refine ⟨fun marks whole => ?_, fun marks whole k => ?_⟩
  · rw [unfolded]
    exact (follows.upTo _).length _ (owed.length marks whole)
  · rw [unfolded, (follows.upTo _).marked _ (owed.length marks whole)]
    constructor
    · rintro ⟨j, marked, m, few, later⟩
      obtain ⟨i, marked, first⟩ := (owed.marked marks whole j).mp marked
      refine ⟨i, marked, repIff.mpr ⟨least + m, Nat.le_add_right _ _, ?_, ?_⟩⟩
      · rintro bound rfl
        have enough := ranged bound rfl
        rw [Option.elim_some] at few
        omega
      · exact timesAppend.mpr ⟨j, first, later⟩
    · rintro ⟨i, marked, between⟩
      obtain ⟨n, enough, few, times⟩ := repIff.mp between
      obtain ⟨m, rfl⟩ := Nat.exists_eq_add_of_le enough
      obtain ⟨j, first, later⟩ := timesAppend.mp times
      obtain ⟨fewer, least', below, short⟩ := later.short
      refine ⟨j, (owed.marked marks whole j).mpr ⟨i, marked, first⟩, fewer, ?_, short⟩
      cases most with
      | none =>
        have inside := later.order.2
        rw [Option.elim_none]
        omega
      | some bound =>
        have above := few bound rfl
        rw [Option.elim_some]
        omega

theorem reachFollows (ranged : p.Ranged) : Follows text (reach text p) (Between text p) := by
  induction p with
  | empty =>
    refine ⟨fun marks whole => whole, fun marks whole j => ⟨fun marked => ?_, ?_⟩⟩
    · exact ⟨j, marked, .empty (Marks.atInside whole marked)⟩
    · rintro ⟨i, marked, between⟩
      cases between
      exact marked
  | char set => exact reachChar set
  | look condition => exact reachLook condition
  | seq p q first second =>
    have p := first ranged.1
    have q := second ranged.2
    refine ⟨fun marks whole => q.length _ (p.length marks whole), fun marks whole k => ?_⟩
    rw [reach, q.marked _ (p.length marks whole)]
    constructor
    · rintro ⟨j, marked, later⟩
      obtain ⟨i, marked, earlier⟩ := (p.marked marks whole j).mp marked
      exact ⟨i, marked, .seq earlier later⟩
    · rintro ⟨i, marked, between⟩
      cases between with
      | seq earlier later => exact ⟨_, (p.marked marks whole _).mpr ⟨i, marked, earlier⟩, later⟩
  | alt p q left right =>
    have p := left ranged.1
    have q := right ranged.2
    refine ⟨fun marks whole => ?_, fun marks whole k => ?_⟩
    · rw [reach, Marks.either, List.length_zipWith, p.length marks whole, q.length marks whole,
        Nat.min_self]
    · rw [reach, Marks.atEither ((p.length marks whole).trans (q.length marks whole).symm),
        p.marked marks whole, q.marked marks whole]
      constructor
      · rintro (⟨i, marked, between⟩ | ⟨i, marked, between⟩)
        · exact ⟨i, marked, .left between⟩
        · exact ⟨i, marked, .right between⟩
      · rintro ⟨i, marked, between⟩
        cases between with
        | left between => exact .inl ⟨i, marked, between⟩
        | right between => exact .inr ⟨i, marked, between⟩
  | rep least most p follows => exact reachRep (follows ranged.2) ranged.1

/- The search answers the question whether a pattern occurs. -/
theorem occursIff (ranged : p.Ranged) (text : List Char) : occurs p text = true ↔ Occurs p text := by
  have all : (List.replicate (text.length + 1) true).length = text.length + 1 :=
    List.length_replicate
  have follows : Follows text (reach text p) (Between text p) := reachFollows ranged
  have marked := follows.marked _ all
  rw [occurs, List.any_eq_true]
  constructor
  · rintro ⟨here, among, rfl⟩
    obtain ⟨j, there⟩ := List.mem_iff_getElem?.mp among
    obtain ⟨i, -, between⟩ := (marked j).mp there
    exact ⟨i, j, between⟩
  · rintro ⟨i, j, between⟩
    have inside : i < text.length + 1 :=
      Nat.lt_succ_of_le (Nat.le_trans between.order.1 between.order.2)
    have start : Marks.At (List.replicate (text.length + 1) true) i := by
      rw [Marks.At, List.getElem?_replicate, if_pos inside]
    exact ⟨true, List.mem_of_getElem? ((marked j).mpr ⟨i, start, between⟩), rfl⟩

end CommentStrip.Pattern
