import CommentStrip.Proofs.CStyle.Forms
import CommentStrip.Proofs.CStyle.Lexeme

/-! Quoted texts, addresses and regular expressions are read as their expressions match them. -/
namespace CommentStrip.CStyle.Form
open Unicode Text Expression

theorem quoteTailEnds {quote : Char} (plain : quote ≠ '\\') (text : List Char) :
    (seq (.star true (.alt (escaped anything) (but [quote, '\\']))) (char quote)).ends text =
      (quoteTail quote text).toList := by
  fun_induction quoteTail quote text with
  | case1 => rw [starSeqStuck rfl]; rfl
  | case2 =>
    rw [starSeqStuck (by simp [escapedEnds, butEnds, anything, ends]), charEnds,
      if_neg (Ne.symm plain)]
    rfl
  | case3 c rest ih =>
    have pair : (alt (escaped anything) (but [quote, '\\'])).ends ('\\' :: c :: rest) = [2] := by
      simp [altEnds, escapedEnds, butEnds, anythingEnds]
    rw [starSeqStep pair (by simp) (by rw [charEnds, if_neg (Ne.symm plain)])]
    simp only [List.drop_succ_cons, List.drop_zero, ih]
    cases quoteTail quote rest <;> simp [Nat.add_comm]
  | case4 rest notLast notPair =>
    rw [starSeqStuck (by simp [altEnds, escapedEnds, butEnds, plain]), charEnds, if_pos rfl]
    rfl
  | case5 c rest notLast notPair other ih =>
    have normal := notBackslash notLast notPair
    have single : (alt (escaped anything) (but [quote, '\\'])).ends (c :: rest) = [1] := by
      simp [altEnds, escapedEnds, butEnds, normal, other]
    rw [starSeqStep single (by simp) (by rw [charEnds, if_neg other])]
    simp only [List.drop_succ_cons, List.drop_zero, ih]
    cases quoteTail quote rest <;> simp [Nat.add_comm]

theorem quotedEnds {quote : Char} (plain : quote ≠ '\\') (text : List Char) :
    (quoted quote).ends text = (CStyle.quoted quote text).toList := by
  cases text with
  | nil => rfl
  | cons c rest =>
    rw [quoted, charSeqEnds, quoteTailEnds plain, CStyle.quoted]
    by_cases same : c = quote
    · rw [if_pos same, if_pos same]
      cases quoteTail quote rest <;> simp [Nat.add_comm]
    · rw [if_neg same, if_neg same]
      rfl

theorem stopEnds (stop : Char) (text : List Char) :
    (char stop).ends (text.drop (text.takeWhile (· != stop)).length) =
      if (text.takeWhile (· != stop)).length = text.length then [] else [1] := by
  induction text with
  | nil => rfl
  | cons c rest ih =>
    by_cases same : c = stop
    · rw [List.takeWhile_cons_of_neg (by simp [same])]
      simp [charEnds, same]
    · rw [List.takeWhile_cons_of_pos (by simp [same])]
      simpa using ih

theorem butOne (stop : Char) : but [stop] = .one (· != stop) := by
  simp only [but]
  congr 1
  funext c
  simp [bne, Bool.beq_eq_decide_eq]

theorem cssUrlEnds (text : List Char) : cssUrl.ends text = (CStyle.cssUrl text).toList := by
  rw [cssUrl, wordEnds]
  simp only [CStyle.cssUrl, bind, Option.bind]
  cases after "url(".toList text with
  | none => rfl
  | some inside =>
    simp only [plus, seqAssoc, butOne]
    cases inside with
    | nil => rfl
    | cons c rest =>
      by_cases same : c = ')'
      · rw [seqEnds, oneFails rest (by simp [same])]
        simp [same]
      · rw [seqEnds, oneHolds rest (by simp [same]), List.takeWhile_cons_of_pos (by simp [same])]
        simp only [List.flatMap_singleton, List.drop_succ_cons, List.drop_zero]
        rw [runSeqEnds (by simp +contextual [charEnds]), stopEnds]
        by_cases none : (rest.takeWhile (· != ')')).length = rest.length
        · simp [none]
        · rw [if_neg none, if_neg (by simpa using none)]
          simp
          omega

def plainRest : Expression :=
  .seq (.star true (regexPart ['/', '\\', '\n', '['])) (.seq (char '/') regexFlags)

def regexRest (inBrackets : Bool) : Expression :=
  if inBrackets then .seq (.star true bracketPart) (.seq (char ']') plainRest) else plainRest

def withFlags (text : List Char) (body : Nat) : Nat :=
  body + ((text.drop body).takeWhile isRegexFlag).length

theorem withFlagsLater {e later : Expression} {text : List Char} {n : Nat} {tail : Option Nat}
    (step : e.ends text = (later.ends (text.drop n)).map (n + ·))
    (reaches : later.extent (text.drop n) = tail.map (withFlags (text.drop n))) :
    e.extent text = (tail.map (· + n)).map (withFlags text) := by
  rw [extent] at reaches
  rw [extent, step, List.head?_map, reaches]
  cases tail with
  | none => rfl
  | some body =>
    simp only [Option.map_some, withFlags, List.drop_drop, Nat.add_comm body n, Nat.add_assoc]

theorem bracketPartPair {c : Char} (rest : List Char) (line : c ≠ '\n') :
    bracketPart.ends ('\\' :: c :: rest) = [2] := by
  simp [bracketPart, altEnds, escapedEnds, butEnds, line]

theorem bracketPartPlain {c : Char} (rest : List Char) (normal : c ≠ '\\') :
    bracketPart.ends (c :: rest) = if c ∈ [']', '\\', '\n'] then [] else [1] := by
  simp [bracketPart, altEnds, escapedEnds, butEnds, normal]

theorem regexPartPair {plain : List Char} (listed : '\\' ∈ plain) {c : Char} (rest : List Char)
    (line : c ≠ '\n') : (regexPart plain).ends ('\\' :: c :: rest) = [2] := by
  simp [regexPart, brackets, altEnds, escapedEnds, butEnds, charSeqEnds, listed, line]

theorem regexPartPlain (plain : List Char) {c : Char} (rest : List Char) (normal : c ≠ '\\')
    (outside : c ≠ '[') :
    (regexPart plain).ends (c :: rest) = if c ∈ plain then [] else [1] := by
  simp [regexPart, brackets, altEnds, escapedEnds, butEnds, charSeqEnds, normal, outside]

theorem regexPartBrackets {plain : List Char} (listed : '[' ∈ plain) (rest : List Char) :
    (regexPart plain).ends ('[' :: rest) = brackets.ends ('[' :: rest) := by
  simp [regexPart, altEnds, escapedEnds, butEnds, listed]

theorem regexPartFilled (plain text : List Char) : 0 ∉ (regexPart plain).ends text := by
  have single : 0 ∉ (but plain).ends text := by
    cases text with
    | nil => exact List.not_mem_nil
    | cons c rest =>
      rw [butEnds]
      split <;> simp
  simp only [regexPart, altEnds, List.mem_append, not_or]
  exact ⟨charSeqFilled '\\' _ text, charSeqFilled '[' _ text, single⟩

theorem backslashStuck {text : List Char} (bad : text = [] ∨ ∃ rest, text = '\n' :: rest)
    (inBrackets : Bool) : (regexRest inBrackets).ends ('\\' :: text) = [] := by
  cases inBrackets with
  | true =>
    have stuck : bracketPart.ends ('\\' :: text) = [] := by
      rcases bad with rfl | ⟨rest, rfl⟩ <;> rfl
    simp only [regexRest, if_true]
    rw [starSeqStuck stuck, charSeqEnds]
    rfl
  | false =>
    have stuck : (regexPart ['/', '\\', '\n', '[']).ends ('\\' :: text) = [] := by
      rcases bad with rfl | ⟨rest, rfl⟩ <;> rfl
    simp only [regexRest, Bool.false_eq_true, if_false, plainRest]
    rw [starSeqStuck stuck, charSeqEnds]
    rfl

theorem lineFeedStuck (rest : List Char) (inBrackets : Bool) :
    (regexRest inBrackets).ends ('\n' :: rest) = [] := by
  cases inBrackets with
  | true =>
    simp only [regexRest, if_true]
    rw [starSeqStuck (bracketPartPlain rest (by decide)), charSeqEnds]
    rfl
  | false =>
    simp only [regexRest, Bool.false_eq_true, if_false, plainRest]
    rw [starSeqStuck (regexPartPlain _ rest (by decide) (by decide)), charSeqEnds]
    rfl

theorem regexRestPair {c : Char} (rest : List Char) (line : c ≠ '\n') (inBrackets : Bool) :
    (regexRest inBrackets).ends ('\\' :: c :: rest) =
      ((regexRest inBrackets).ends rest).map (2 + ·) := by
  cases inBrackets with
  | true => exact starSeqStep (bracketPartPair rest line) (by simp) (charSeqEnds ..)
  | false =>
    exact starSeqStep (regexPartPair (by decide) rest line) (by simp) (charSeqEnds ..)

theorem regexRestInside {c : Char} (rest : List Char) (normal : c ≠ '\\') (line : c ≠ '\n') :
    (regexRest true).ends (c :: rest) = ((regexRest (c != ']')).ends rest).map (1 + ·) := by
  have part := bracketPartPlain rest normal
  by_cases closes : c = ']'
  · subst closes
    rw [if_pos (by decide)] at part
    show (seq (.star true bracketPart) (.seq (char ']') plainRest)).ends (']' :: rest) = _
    rw [starSeqStuck part, charSeqEnds]
    rfl
  · rw [if_neg (by simp [closes, normal, line])] at part
    have inside : (c != ']') = true := by simp [closes]
    rw [inside]
    exact starSeqStep part (by simp) (by rw [charSeqEnds, if_neg closes])

theorem regexRestOutside {c : Char} (rest : List Char) (normal : c ≠ '\\') (line : c ≠ '\n')
    (inner : c ≠ '/') :
    (regexRest false).ends (c :: rest) = ((regexRest (c == '[')).ends rest).map (1 + ·) := by
  have never : (seq (char '/') regexFlags).ends (c :: rest) = [] := by
    rw [charSeqEnds, if_neg inner]
  by_cases opens : c = '['
  · subst opens
    have listed : '[' ∈ ['/', '\\', '\n', '['] := by decide
    have part := regexPartBrackets listed rest
    have first : ('[' == '[') = true := rfl
    have round : (seq (regexPart ['/', '\\', '\n', '[']) plainRest).ends ('[' :: rest) =
        ((regexRest true).ends rest).map (1 + ·) := by
      rw [seqEnds, part, ← seqEnds, brackets, seqAssoc, charSeqEnds, if_pos rfl]
      rw [List.map_inj_right (by simp), seqAssoc]
      rfl
    rw [first, ← round]
    show plainRest.ends ('[' :: rest) = _
    rw [plainRest, starSeqRound (regexPartFilled _ _), never, List.append_nil]
  · have part := regexPartPlain ['/', '\\', '\n', '['] rest normal opens
    rw [if_neg (by simp [opens, normal, line, inner])] at part
    have outside : (c == '[') = false := by simp [opens]
    rw [outside]
    exact starSeqStep part (by simp) never

theorem regexTailExtent (inBrackets : Bool) (text : List Char) :
    (regexRest inBrackets).extent text = (regexTail inBrackets text).map (withFlags text) := by
  fun_induction regexTail inBrackets text with
  | case1 inBrackets => cases inBrackets <;> rfl
  | case2 inBrackets => exact stuckExtent (backslashStuck (.inl rfl) inBrackets)
  | case3 inBrackets rest => exact stuckExtent (backslashStuck (.inr ⟨rest, rfl⟩) inBrackets)
  | case4 inBrackets c rest line ih => exact withFlagsLater (regexRestPair rest line inBrackets) ih
  | case5 inBrackets rest => exact stuckExtent (lineFeedStuck rest inBrackets)
  | case6 c rest notLast notPair line ih =>
    exact withFlagsLater (regexRestInside rest (notBackslash notLast notPair) line) ih
  | case7 inBrackets rest outside =>
    obtain rfl : inBrackets = false := by simpa using outside
    have part : (regexPart ['/', '\\', '\n', '[']).ends ('/' :: rest) = [] :=
      regexPartPlain _ rest (by decide) (by decide)
    have flags := runExtent isRegexFlag rest
    show plainRest.extent ('/' :: rest) = _
    rw [extent] at flags
    rw [extent, plainRest, starSeqStuck part, charSeqEnds, if_pos rfl, List.head?_map, regexFlags,
      flags]
    simp [withFlags]
  | case8 inBrackets c rest notLast notPair line outside inner ih =>
    obtain rfl : inBrackets = false := by simpa using outside
    exact withFlagsLater (regexRestOutside rest (notBackslash notLast notPair) line inner) ih

theorem regexStart {c : Char} (rest : List Char) (inner : c ≠ '/') (star : c ≠ '*') :
    (seq (regexPart ['/', '\\', '\n', '[', '*']) plainRest).ends (c :: rest) =
      plainRest.ends (c :: rest) := by
  have same : (regexPart ['/', '\\', '\n', '[', '*']).ends (c :: rest) =
      (regexPart ['/', '\\', '\n', '[']).ends (c :: rest) := by
    simp [regexPart, altEnds, butEnds, star]
  have never : (seq (char '/') regexFlags).ends (c :: rest) = [] := by
    rw [charSeqEnds, if_neg inner]
  rw [seqEnds, same, ← seqEnds]
  conv => rhs; rw [plainRest, starSeqRound (regexPartFilled _ _), never, List.append_nil]
  rfl

theorem regexLiteralExtent (text : List Char) :
    regexLiteral.extent text = CStyle.regexLiteral text := by
  cases text with
  | nil => rfl
  | cons d text =>
    by_cases slash : d = '/'
    · subst slash
      cases text with
      | nil => rfl
      | cons c rest =>
        rw [extent, regexLiteral, charSeqEnds, if_pos rfl, List.head?_map, CStyle.regexLiteral]
        by_cases bad : c = '/' ∨ c = '*'
        · have stuck : (regexPart ['/', '\\', '\n', '[', '*']).ends (c :: rest) = [] := by
            rcases bad with rfl | rfl <;> exact regexPartPlain _ rest (by decide) (by decide)
          rw [if_pos bad, seqEnds, stuck]
          rfl
        · have tail := regexTailExtent false (c :: rest)
          rw [extent] at tail
          rw [if_neg bad]
          rw [not_or] at bad
          show Option.map _ ((seq _ plainRest).ends (c :: rest)).head? = _
          rw [regexStart rest bad.1 bad.2]
          show Option.map _ ((regexRest false).ends (c :: rest)).head? = _
          rw [tail]
          cases regexTail false (c :: rest) with
          | none => rfl
          | some body => simp [withFlags, Nat.add_comm]
    · rw [stuckExtent (by rw [regexLiteral, charSeqEnds, if_neg slash]), CStyle.regexLiteral]
      intro c rest same
      cases same
      exact slash rfl

end CommentStrip.CStyle.Form
