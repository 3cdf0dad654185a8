import CommentStrip.Proofs.CStyle.Partition
import CommentStrip.Proofs.CStyle.Rescan

/-! A scan without brace expressions changes a text only inside the spans that are comments. -/
namespace CommentStrip.CStyle
open Text

def InComment (o : Options) (keep : KeepSet) (text : List Char) (i : Nat) : Prop :=
  ∃ start stop c, (start, stop, c) ∈ offsets 0 (classify o keep text) ∧ c.kind = .comment ∧
    start ≤ byteLength (text.take i) ∧ byteLength (text.take i) < stop

theorem cleanedOther {c : Classified} (other : c.kind ≠ .comment) : cleaned c = c.text := by
  unfold cleaned
  split
  · exact absurd ‹_› other
  · exact absurd ‹_› other
  · rfl

theorem cleanedBlanked {c : Classified} (other : c.branch ≠ some .jsxComment) :
    Blanked c.text (cleaned c) := by
  unfold cleaned
  split
  · exact absurd ‹_› other
  · exact .whole c.text
  · exact .refl c.text

theorem classifyBlanked {o : Options} (plain : o.jsx = false) (keep : KeepSet) (text : List Char) :
    ∀ c ∈ classify o keep text, Blanked c.text (cleaned c) := by
  intro c member
  refine cleanedBlanked ?_
  obtain ⟨piece, found, rfl⟩ := List.mem_map.mp member
  cases piece with
  | gap gap => simp [classified]
  | hit read taken =>
    intro brace
    obtain ⟨rest, matched⟩ := Alternation.hitsRead found
    have enabled := (enabledIff plain read.branch).mp (matchReads matched).1
    rw [Option.some.inj brace] at enabled
    exact enabled

theorem takeBytes {text : List Char} {i : Nat} (inside : i < text.length) :
    byteLength (text.take i) < byteLength text := by
  have whole := byteLengthAppend (text.take i) (text.drop i)
  have behind : 0 < byteLength (text.drop i) := byteLengthPositive (by simpa using inside)
  rw [List.take_append_drop] at whole
  omega

theorem changedSpan {spans : List Classified} (blanked : ∀ c ∈ spans, Blanked c.text (cleaned c))
    (position : Nat) {i : Nat}
    (changed : (clean spans)[i]? ≠ (spans.map Classified.text).flatten[i]?) :
    ∃ start stop c, (start, stop, c) ∈ offsets position spans ∧ c.kind = .comment ∧
      start ≤ position + byteLength ((spans.map Classified.text).flatten.take i) ∧
      position + byteLength ((spans.map Classified.text).flatten.take i) < stop := by
  induction spans generalizing position i with
  | nil => exact absurd rfl changed
  | cons c rest ih =>
    obtain ⟨here, behind⟩ := List.forall_mem_cons.mp blanked
    have even := here.length
    simp only [clean, List.flatMap_cons, List.map_cons, List.flatten_cons] at changed ⊢
    by_cases inside : i < c.text.length
    · refine ⟨position, position + byteLength c.text, c, List.mem_cons_self, ?_, ?_⟩
      · rw [List.getElem?_append_left (by omega), List.getElem?_append_left inside] at changed
        by_contra other
        exact changed (by rw [cleanedOther other])
      · have short := takeBytes inside
        rw [List.take_append_of_le_length (by omega)]
        omega
    · rw [List.getElem?_append_right (by omega), List.getElem?_append_right (by omega), even]
        at changed
      obtain ⟨start, stop, d, member, comment, first, last⟩ :=
        ih behind (position + byteLength c.text) changed
      refine ⟨start, stop, d, List.mem_cons_of_mem _ member, comment, ?_⟩
      rw [List.take_append, List.take_of_length_le (by omega), byteLengthAppend]
      omega

theorem scanChanges {o : Options} (plain : o.jsx = false) (keep : KeepSet) (text : List Char)
    {i : Nat} (changed : (scan o keep text).1[i]? ≠ text[i]?) : InComment o keep text i := by
  have whole := classifyText o keep text
  have found := changedSpan (classifyBlanked plain keep text) 0 (i := i) (by rwa [whole])
  simp only [whole, Nat.zero_add] at found
  exact found

end CommentStrip.CStyle
