import CommentStrip.Text.Basic

/-! A text cut at its line feeds. `linesInclusive` leaves each line feed with the line it ends,
so that nothing is lost; `lines` drops the terminators. -/
namespace CommentStrip.Text

def linesInclusive : List Char → List (List Char)
  | [] => []
  | c :: rest =>
    if c = '\n' then [c] :: linesInclusive rest
    else match linesInclusive rest with
      | [] => [[c]]
      | line :: later => (c :: line) :: later

theorem linesInclusiveFlatten (text : List Char) : (linesInclusive text).flatten = text := by
  induction text with
  | nil => rfl
  | cons c rest ih =>
    simp only [linesInclusive]
    split
    · simp [ih]
    · split
      · rename_i h
        simp [h] at ih
        simp [ih]
      · rename_i line later h
        simp [h] at ih
        simp [ih]

def cutAt (mark : Char) : List Char → List (List Char)
  | [] => [[]]
  | c :: rest =>
    if c = mark then [] :: cutAt mark rest
    else match cutAt mark rest with
      | [] => [[c]]
      | part :: later => (c :: part) :: later

theorem cutAtNonempty (mark : Char) (text : List Char) : cutAt mark text ≠ [] := by
  cases text with
  | nil => simp [cutAt]
  | cons c rest =>
    simp only [cutAt]
    split
    · simp
    · split <;> simp

def joinWith (mark : List Char) : List (List Char) → List Char
  | [] => []
  | [part] => part
  | part :: rest => part ++ mark ++ joinWith mark rest

/- A carriage return in front of the line feed belongs to the terminator. -/
def splitTerminator (line : List Char) : List Char × List Char :=
  match line.reverse with
  | '\n' :: '\r' :: body => (body.reverse, ['\r', '\n'])
  | '\n' :: body => (body.reverse, ['\n'])
  | _ => (line, [])

theorem splitTerminatorAppend (line : List Char) :
    (splitTerminator line).1 ++ (splitTerminator line).2 = line := by
  unfold splitTerminator
  split <;> rename_i h
  · have r := congrArg List.reverse h
    simp at r
    simp [r]
  · have r := congrArg List.reverse h
    simp at r
    simp [r]
  · simp

def lines (text : List Char) : List (List Char) :=
  (linesInclusive text).map fun line => (splitTerminator line).1

end CommentStrip.Text
