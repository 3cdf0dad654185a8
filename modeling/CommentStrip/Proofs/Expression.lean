import CommentStrip.Text.Basic

/-! Regular expressions as a search by preference reads them. An expression lists how far its
matches at the front of a text reach, the preferred one first; the first of them is the match. -/
namespace CommentStrip

inductive Expression where
  | one (set : Char → Bool)
  | seq (first second : Expression)
  | alt (left right : Expression)
  /-- Prefers more rounds to fewer, or fewer to more. -/
  | star (greedy : Bool) (body : Expression)

namespace Expression

def rounds (greedy : Bool) (body : List Char → List Nat) : Nat → List Char → List Nat
  | 0, _ => [0]
  | fuel + 1, text =>
    let further := (body text).flatMap fun n =>
      if n = 0 then [] else (rounds greedy body fuel (text.drop n)).map (n + ·)
    if greedy then further ++ [0] else 0 :: further

def ends : Expression → List Char → List Nat
  | .one _, [] => []
  | .one set, c :: _ => if set c then [1] else []
  | .seq first second, text =>
    (first.ends text).flatMap fun n => (second.ends (text.drop n)).map (n + ·)
  | .alt left right, text => left.ends text ++ right.ends text
  | .star greedy body, text => rounds greedy body.ends text.length text

def extent (e : Expression) (text : List Char) : Option Nat := (e.ends text).head?

def char (c : Char) : Expression := .one (· == c)

def word (chars : List Char) (last : Expression) : Expression :=
  chars.foldr (fun c e => .seq (char c) e) last

def plus (greedy : Bool) (body : Expression) : Expression := .seq body (.star greedy body)

theorem roundsWithin {greedy : Bool} {body : List Char → List Nat}
    (within : ∀ text, ∀ n ∈ body text, n ≤ text.length) (fuel : Nat) (text : List Char) :
    ∀ n ∈ rounds greedy body fuel text, n ≤ text.length := by
  induction fuel generalizing text with
  | zero => simp [rounds]
  | succ fuel ih =>
    have further : ∀ n ∈ (body text).flatMap (fun n =>
        if n = 0 then [] else (rounds greedy body fuel (text.drop n)).map (n + ·)),
        n ≤ text.length := by
      intro n member
      obtain ⟨m, first, later⟩ := List.mem_flatMap.mp member
      split at later
      · simp at later
      · obtain ⟨k, more, rfl⟩ := List.mem_map.mp later
        have short := within text m first
        have behind := ih (text.drop m) k more
        simp only [List.length_drop] at behind
        omega
    intro n member
    simp only [rounds] at member
    split at member
    · rcases List.mem_append.mp member with earlier | last
      · exact further n earlier
      · simp only [List.mem_singleton] at last
        omega
    · rcases List.mem_cons.mp member with rfl | later
      · exact Nat.zero_le _
      · exact further n later

theorem endsWithin (e : Expression) (text : List Char) : ∀ n ∈ e.ends text, n ≤ text.length := by
  induction e generalizing text with
  | one set =>
    cases text with
    | nil => simp [ends]
    | cons c rest =>
      intro n member
      simp only [ends] at member
      split at member <;> simp_all
  | seq first second ihFirst ihSecond =>
    intro n member
    obtain ⟨m, early, later⟩ := List.mem_flatMap.mp member
    obtain ⟨k, more, rfl⟩ := List.mem_map.mp later
    have short := ihFirst text m early
    have behind := ihSecond (text.drop m) k more
    simp only [List.length_drop] at behind
    omega
  | alt left right ihLeft ihRight =>
    intro n member
    rcases List.mem_append.mp member with here | there
    · exact ihLeft text n here
    · exact ihRight text n there
  | star greedy body ih => exact roundsWithin ih _ text

/- The fuel of a star is enough: no round more would change anything. -/
theorem roundsStable {greedy : Bool} {body : List Char → List Nat}
    (within : ∀ text, ∀ n ∈ body text, n ≤ text.length) {fuel : Nat} {text : List Char}
    (enough : text.length ≤ fuel) :
    rounds greedy body (fuel + 1) text = rounds greedy body fuel text := by
  induction fuel generalizing text with
  | zero =>
    obtain rfl := List.length_eq_zero_iff.mp (Nat.le_zero.mp enough)
    have stuck : (body []).flatMap (fun n =>
        if n = 0 then [] else ([0] : List Nat).map (n + ·)) = [] := by
      rw [List.flatMap_eq_nil_iff]
      intro n member
      have empty := within [] n member
      simp only [List.length_nil, Nat.le_zero] at empty
      simp [empty]
    simp only [rounds, stuck]
    split <;> rfl
  | succ fuel ih =>
    have same : (body text).flatMap (fun n => if n = 0 then [] else
          (rounds greedy body (fuel + 1) (text.drop n)).map (n + ·)) =
        (body text).flatMap fun n => if n = 0 then [] else
          (rounds greedy body fuel (text.drop n)).map (n + ·) := by
      congr 1
      funext n
      by_cases empty : n = 0
      · rw [if_pos empty, if_pos empty]
      · rw [if_neg empty, if_neg empty, ih (by rw [List.length_drop]; omega)]
    rw [rounds, same]
    rfl

theorem roundsEnough {greedy : Bool} {body : List Char → List Nat}
    (within : ∀ text, ∀ n ∈ body text, n ≤ text.length) {fuel : Nat} {text : List Char}
    (enough : text.length ≤ fuel) :
    rounds greedy body fuel text = rounds greedy body text.length text := by
  induction enough with
  | refl => rfl
  | step enough ih => rw [roundsStable within enough, ih]

theorem starEnds (greedy : Bool) (body : Expression) (text : List Char) :
    (star greedy body).ends text =
      let further := (body.ends text).flatMap fun n =>
        if n = 0 then [] else ((star greedy body).ends (text.drop n)).map (n + ·)
      if greedy then further ++ [0] else 0 :: further := by
  have same : (body.ends text).flatMap (fun n => if n = 0 then [] else
        (rounds greedy body.ends text.length (text.drop n)).map (n + ·)) =
      (body.ends text).flatMap fun n => if n = 0 then [] else
        ((star greedy body).ends (text.drop n)).map (n + ·) := by
    congr 1
    funext n
    by_cases empty : n = 0
    · rw [if_pos empty, if_pos empty]
    · have enough : (text.drop n).length ≤ text.length := by
        rw [List.length_drop]
        omega
      rw [if_neg empty, if_neg empty, roundsEnough body.endsWithin enough]
      rfl
  calc (star greedy body).ends text
      = rounds greedy body.ends (text.length + 1) text :=
        (roundsStable body.endsWithin (Nat.le_refl _)).symm
    _ = _ := by rw [rounds, same]

theorem seqEnds (first second : Expression) (text : List Char) :
    (seq first second).ends text =
      (first.ends text).flatMap fun n => (second.ends (text.drop n)).map (n + ·) := rfl

theorem starSeqEnds (greedy : Bool) (body last : Expression) (text : List Char) :
    (seq (star greedy body) last).ends text =
      let further := (body.ends text).flatMap fun n =>
        if n = 0 then [] else ((seq (star greedy body) last).ends (text.drop n)).map (n + ·)
      if greedy then further ++ last.ends text else last.ends text ++ further := by
  have none : (last.ends (text.drop 0)).map (0 + ·) = last.ends text := by simp
  have further : ((body.ends text).flatMap fun n =>
        if n = 0 then [] else ((star greedy body).ends (text.drop n)).map (n + ·)).flatMap
          (fun n => (last.ends (text.drop n)).map (n + ·)) =
      (body.ends text).flatMap fun n =>
        if n = 0 then [] else ((seq (star greedy body) last).ends (text.drop n)).map (n + ·) := by
    rw [List.flatMap_assoc]
    congr 1
    funext n
    by_cases empty : n = 0
    · rw [if_pos empty, if_pos empty, List.flatMap_nil]
    · rw [if_neg empty, if_neg empty, List.flatMap_map, seqEnds, List.map_flatMap]
      simp only [List.map_map, List.drop_drop, Function.comp_def, Nat.add_assoc]
  rw [seqEnds, starEnds]
  cases greedy with
  | true =>
    simp only [if_true, List.flatMap_append, List.flatMap_singleton, none, further]
  | false =>
    simp only [Bool.false_eq_true, if_false, List.flatMap_cons, none, further]

theorem oneHolds {set : Char → Bool} {c : Char} (rest : List Char) (holds : set c = true) :
    (one set).ends (c :: rest) = [1] := by rw [ends, if_pos holds]

theorem oneFails {set : Char → Bool} {c : Char} (rest : List Char) (fails : set c = false) :
    (one set).ends (c :: rest) = [] := by rw [ends, if_neg (by simp [fails])]

theorem charSeqEnds (c d : Char) (last : Expression) (rest : List Char) :
    (seq (char c) last).ends (d :: rest) =
      if d = c then (last.ends rest).map (1 + ·) else [] := by
  by_cases same : d = c
  · rw [if_pos same, seqEnds, char, oneHolds rest (by simp [same])]
    simp
  · rw [if_neg same, seqEnds, char, oneFails rest (by simp [same])]
    rfl

theorem shiftTwice (a b : Nat) (found : List Nat) :
    (found.map (a + ·)).map (b + ·) = found.map (a + b + ·) := by
  simp [Function.comp_def, Nat.add_comm, Nat.add_left_comm]

theorem wordEnds (chars : List Char) (last : Expression) (text : List Char) :
    (word chars last).ends text =
      match Text.after chars text with
      | some rest => (last.ends rest).map (chars.length + ·)
      | none => [] := by
  induction chars generalizing text with
  | nil => simp [word, Text.after]
  | cons c chars ih =>
    cases text with
    | nil => rfl
    | cons d rest =>
      show (seq (char c) (word chars last)).ends (d :: rest) = _
      rw [charSeqEnds, ih, Text.after]
      by_cases same : c = d
      · rw [if_pos same.symm, if_pos same]
        cases Text.after chars rest with
        | none => rfl
        | some behind => exact shiftTwice chars.length 1 (last.ends behind)
      · rw [if_neg (Ne.symm same), if_neg same]

theorem seqAssoc (first second third : Expression) (text : List Char) :
    (seq (seq first second) third).ends text = (seq first (seq second third)).ends text := by
  simp only [seqEnds, List.flatMap_assoc, List.flatMap_map, List.map_flatMap, List.map_map,
    List.drop_drop, Function.comp_def, Nat.add_assoc]

theorem starSeqStuck {greedy : Bool} {body last : Expression} {text : List Char}
    (stuck : body.ends text = []) : (seq (star greedy body) last).ends text = last.ends text := by
  rw [starSeqEnds, stuck]
  cases greedy <;> simp

theorem starSeqRound {body last : Expression} {text : List Char} (filled : 0 ∉ body.ends text) :
    (seq (star true body) last).ends text =
      (seq body (seq (star true body) last)).ends text ++ last.ends text := by
  rw [starSeqEnds, seqEnds]
  simp only [if_true]
  congr 1
  rw [List.flatMap_def, List.flatMap_def]
  congr 1
  apply List.map_congr_left
  intro n member
  rw [if_neg]
  intro same
  subst same
  exact filled member

theorem starSeqStep {greedy : Bool} {body last : Expression} {text : List Char} {n : Nat}
    (once : body.ends text = [n]) (filled : n ≠ 0) (never : last.ends text = []) :
    (seq (star greedy body) last).ends text =
      ((seq (star greedy body) last).ends (text.drop n)).map (n + ·) := by
  rw [starSeqEnds, once, never]
  cases greedy <;> simp [filled]

theorem runSeqEnds {set : Char → Bool} {last : Expression}
    (apart : ∀ c rest, set c = true → last.ends (c :: rest) = []) (text : List Char) :
    (seq (star true (one set)) last).ends text =
      (last.ends (text.drop (text.takeWhile set).length)).map ((text.takeWhile set).length + ·) := by
  induction text with
  | nil =>
    rw [starSeqStuck rfl]
    simp
  | cons c rest ih =>
    by_cases holds : set c = true
    · rw [starSeqStep (oneHolds rest holds) (by simp) (apart c rest holds), List.drop_one,
        List.tail_cons, ih, List.takeWhile_cons_of_pos holds, shiftTwice]
      rfl
    · rw [starSeqStuck (oneFails rest (by simpa using holds)),
        List.takeWhile_cons_of_neg (by simpa using holds)]
      simp

theorem runExtent (set : Char → Bool) (text : List Char) :
    (star true (one set)).extent text = some (text.takeWhile set).length := by
  induction text with
  | nil => simp [extent, ends, rounds]
  | cons c rest ih =>
    rw [extent, starEnds]
    by_cases holds : set c = true
    · rw [oneHolds rest holds, List.takeWhile_cons_of_pos holds]
      simp only [extent] at ih
      simp [ih, Nat.add_comm]
    · rw [oneFails rest (by simpa using holds), List.takeWhile_cons_of_neg (by simpa using holds)]
      simp

end Expression
end CommentStrip
