import CommentStrip.Unicode.Character

/-! Text is a list of characters. Offsets that leave the library are byte counts of the
UTF-8 form, taken from the characters in front of the place. -/
namespace CommentStrip.Text
open Unicode

def byteLength (text : List Char) : Nat := text.foldr (fun c n => c.utf8Size + n) 0

theorem byteLengthNil : byteLength [] = 0 := rfl

theorem byteLengthCons (c : Char) (rest : List Char) :
    byteLength (c :: rest) = c.utf8Size + byteLength rest := rfl

theorem byteLengthAppend (left right : List Char) :
    byteLength (left ++ right) = byteLength left + byteLength right := by
  induction left with
  | nil => rw [List.nil_append, byteLengthNil, Nat.zero_add]
  | cons c left ih => rw [List.cons_append, byteLengthCons, byteLengthCons, ih, Nat.add_assoc]

theorem byteLengthReverse (text : List Char) : byteLength text.reverse = byteLength text := by
  induction text with
  | nil => rfl
  | cons c text ih =>
    rw [List.reverse_cons, byteLengthAppend, ih, byteLengthCons, byteLengthCons, byteLengthNil]
    omega

theorem byteLengthPositive {text : List Char} (filled : text ≠ []) : 0 < byteLength text := by
  cases text with
  | nil => exact absurd rfl filled
  | cons c rest =>
    have size := c.utf8Size_pos
    rw [byteLengthCons]
    omega

def isBreak (c : Char) : Bool := c == '\n' || c == '\r'

def blank (text : List Char) : List Char :=
  text.map fun c => if isBreak c then c else ' '

def collapse (text : List Char) : List Char := text.filter isBreak

theorem blankLength (text : List Char) : (blank text).length = text.length := by
  simp [blank]

def dropEndWhile (p : Char → Bool) (text : List Char) : List Char :=
  (text.reverse.dropWhile p).reverse

theorem dropEndWhilePrefix (p : Char → Bool) (text : List Char) :
    dropEndWhile p text <+: text := by
  have h : text.reverse.dropWhile p <:+ text.reverse := List.dropWhile_suffix p
  have r := List.reverse_prefix.mpr h
  simpa [dropEndWhile] using r

def trimEnd : List Char → List Char := dropEndWhile isWhite

def trimStart : List Char → List Char := List.dropWhile isWhite

def trim (text : List Char) : List Char := trimEnd (trimStart text)

def after : (head text : List Char) → Option (List Char)
  | [], text => some text
  | _ :: _, [] => none
  | h :: head, c :: text => if h = c then after head text else none

theorem afterSome {head text rest : List Char} :
    after head text = some rest ↔ text = head ++ rest := by
  induction head generalizing text with
  | nil => simp [after, eq_comm]
  | cons h head ih =>
    cases text with
    | nil => simp [after]
    | cons c text =>
      simp only [after, List.cons_append, List.cons.injEq]
      split
      · rename_i same
        simp [ih, same]
      · rename_i other
        simp [Ne.symm other]

def startsWith (head text : List Char) : Bool := (after head text).isSome

theorem startsWithIff {head text : List Char} :
    startsWith head text = true ↔ ∃ rest, text = head ++ rest := by
  simp [startsWith, Option.isSome_iff_exists, afterSome]

/- The first place where `stop` holds: how many characters come before it and what `stop`
says there. -/
def firstWhere {α : Type} (stop : List Char → Option α) : List Char → Option (Nat × α)
  | [] => (stop []).map (0, ·)
  | c :: rest =>
    match stop (c :: rest) with
    | some a => some (0, a)
    | none => (firstWhere stop rest).map fun found => (found.1 + 1, found.2)

theorem firstWhereHolds {α : Type} {stop : List Char → Option α} {text : List Char} {n : Nat}
    {a : α} (found : firstWhere stop text = some (n, a)) : stop (text.drop n) = some a := by
  induction text generalizing n with
  | nil =>
    simp only [firstWhere, Option.map_eq_some_iff, Prod.mk.injEq] at found
    obtain ⟨b, h, rfl, rfl⟩ := found
    simpa using h
  | cons c rest ih =>
    simp only [firstWhere] at found
    split at found
    · rename_i b h
      cases found
      simpa using h
    · simp only [Option.map_eq_some_iff, Prod.mk.injEq] at found
      obtain ⟨⟨m, b⟩, h, rfl, rfl⟩ := found
      simpa using ih h

theorem firstWhereFirst {α : Type} {stop : List Char → Option α} {text : List Char} {n : Nat}
    {a : α} (found : firstWhere stop text = some (n, a)) {m : Nat} (earlier : m < n) :
    stop (text.drop m) = none := by
  induction text generalizing n m with
  | nil =>
    simp only [firstWhere, Option.map_eq_some_iff, Prod.mk.injEq] at found
    obtain ⟨b, h, rfl, rfl⟩ := found
    omega
  | cons c rest ih =>
    simp only [firstWhere] at found
    split at found
    · cases found
      omega
    · rename_i h
      simp only [Option.map_eq_some_iff, Prod.mk.injEq] at found
      obtain ⟨⟨k, b⟩, hk, rfl, rfl⟩ := found
      cases m with
      | zero => simpa using h
      | succ m => simpa using ih hk (by simpa using earlier)

theorem firstWhereNever {α : Type} {stop : List Char → Option α} {text : List Char}
    (never : firstWhere stop text = none) (n : Nat) : stop (text.drop n) = none := by
  induction text generalizing n with
  | nil => simpa [firstWhere] using never
  | cons c rest ih =>
    simp only [firstWhere] at never
    split at never
    · cases never
    · rename_i h
      cases n with
      | zero => exact h
      | succ n => exact ih (by simpa using never) n

def through (stop text : List Char) : Option Nat :=
  (firstWhere (after stop) text).map fun found => found.1 + stop.length

/- Every occurrence of `old`, from the left and without overlap, gives way to `new`; an empty
`old` stands before every character and at the end. -/
def replaceFrom (old new : List Char) : List Char → List Char
  | [] => if old.isEmpty then new else []
  | c :: rest =>
    if old.isEmpty then new ++ c :: replaceFrom old new rest
    else if startsWith old (c :: rest) then
      new ++ replaceFrom old new (rest.drop (old.length - 1))
    else c :: replaceFrom old new rest
termination_by text => text.length
decreasing_by all_goals (simp only [List.length_cons, List.length_drop]; omega)

end CommentStrip.Text
