import CommentStrip.Proofs.Search

/-! The finds of a search with their places: they stand in order and apart, each was read and
accepted where it stands, and where a find would be accepted there is one. -/
namespace CommentStrip
open Text
variable {μ : Type}

structure Hit (μ : Type) where
  start : Nat
  found : μ
  raw : List Char
  deriving DecidableEq, Repr

def Hit.stop (h : Hit μ) : Nat := h.start + byteLength h.raw

def hitsFrom (position : Nat) : List (Piece μ) → List (Hit μ)
  | [] => []
  | .gap text :: rest => hitsFrom (position + byteLength text) rest
  | .hit found taken :: rest =>
    ⟨position, found, taken⟩ :: hitsFrom (position + byteLength taken) rest

theorem hitsAppend (position : Nat) (earlier later : List (Piece μ)) :
    hitsFrom position (earlier ++ later) =
      hitsFrom position earlier ++ hitsFrom (position + byteLength (spelled earlier)) later := by
  induction earlier generalizing position with
  | nil => rfl
  | cons piece rest ih =>
    rw [spelledCons, byteLengthAppend, ← Nat.add_assoc]
    cases piece with
    | gap text => exact ih _
    | hit found taken => exact congrArg (_ :: ·) (ih _)

theorem hitsGap (position : Nat) (gap : List Char) (later : List (Piece μ)) :
    hitsFrom position (Alternation.closeGap gap later) =
      hitsFrom (position + byteLength gap) later := by
  rw [Alternation.closeGapAppend, hitsAppend, Alternation.closeGapSpelled, byteLengthReverse]
  unfold Alternation.closeGap
  split <;> rfl

theorem hitsMember {position : Nat} {pieces : List (Piece μ)} {h : Hit μ} :
    h ∈ hitsFrom position pieces ↔ ∃ earlier later,
      pieces = earlier ++ .hit h.found h.raw :: later ∧
        h.start = position + byteLength (spelled earlier) := by
  constructor
  · intro member
    induction pieces generalizing position with
    | nil => cases member
    | cons piece rest ih =>
      have behind (inside : h ∈ hitsFrom (position + byteLength piece.text) rest) :
          ∃ earlier later, piece :: rest = earlier ++ .hit h.found h.raw :: later ∧
            h.start = position + byteLength (spelled earlier) := by
        obtain ⟨earlier, later, rfl, start⟩ := ih inside
        refine ⟨piece :: earlier, later, rfl, ?_⟩
        rw [start, spelledCons, byteLengthAppend, Nat.add_assoc]
      cases piece with
      | gap text => exact behind member
      | hit found taken =>
        rcases List.mem_cons.mp member with rfl | inside
        · exact ⟨[], rest, rfl, rfl⟩
        · exact behind inside
  · intro parts
    obtain ⟨earlier, later, rfl, start⟩ := parts
    rw [hitsAppend, ← start]
    exact List.mem_append_right _ List.mem_cons_self

theorem hitsOrdered (position : Nat) (pieces : List (Piece μ)) :
    (hitsFrom position pieces).Pairwise fun g h => g.stop ≤ h.start := by
  induction pieces generalizing position with
  | nil => exact .nil
  | cons piece rest ih =>
    cases piece with
    | gap text => exact ih _
    | hit found taken =>
      refine .cons (fun later member => ?_) (ih _)
      obtain ⟨earlier, more, -, start⟩ := hitsMember.mp member
      rw [start]
      exact Nat.le_add_right ..

theorem placeWithin {before taken rest front here : List Char}
    (same : before ++ (taken ++ rest) = front ++ here) (begun : before.length ≤ front.length)
    (within : front.length < before.length + taken.length) :
    byteLength before ≤ byteLength front ∧
      byteLength front < byteLength before + byteLength taken := by
  obtain ⟨more, rfl⟩ : before <+: front :=
    List.prefix_of_prefix_length_le ⟨_, same⟩ (List.prefix_append front here) begun
  rw [List.append_assoc, List.append_cancel_left_eq] at same
  rw [List.length_append, Nat.add_lt_add_iff_left] at within
  obtain ⟨last, rfl⟩ : more <+: taken :=
    List.prefix_of_prefix_length_le ⟨_, same.symm⟩ (List.prefix_append taken rest)
      (Nat.le_of_lt within)
  have filled : last ≠ [] := by
    rintro rfl
    simp at within
  have long := byteLengthPositive filled
  simp only [byteLengthAppend]
  omega

namespace Alternation
variable {a : Alternation μ} {accept : Acceptance μ} {text : List Char}

def hits (a : Alternation μ) (accept : Acceptance μ) (text : List Char) : List (Hit μ) :=
  hitsFrom 0 (a.search accept text)

/- A hit in its text, with the text on both sides of it. It is what matches there, as far as it is
wide, and it was accepted. -/
structure Lies (a : Alternation μ) (accept : Acceptance μ) (text : List Char) (h : Hit μ)
    (front back : List Char) : Prop where
  whole : text = front ++ (h.raw ++ back)
  start : h.start = byteLength front
  stop : h.stop = byteLength (front ++ h.raw)
  filled : h.raw ≠ []
  matched : a.matchAt (h.raw ++ back) = some h.found
  taken : h.raw = (h.raw ++ back).take (a.width h.found)
  accepted : accept front.reverse h.found (h.raw ++ back) = true

theorem hitsLie {h : Hit μ} (member : h ∈ a.hits accept text) :
    ∃ front back, a.Lies accept text h front back := by
  obtain ⟨earlier, later, split, start⟩ := hitsMember.mp member
  rw [Nat.zero_add] at start
  have found : ∃ passed, spelled earlier = [] ++ passed ∧ _ := hitPlaced earlier split
  obtain ⟨passed, told, spoke, taken⟩ := found
  rw [List.nil_append] at told
  rw [← told, List.append_nil] at spoke
  have whole := a.spelledSearch accept text
  rw [split, spelledAppend] at whole
  have read : .hit h.found h.raw ∈ a.searchFrom accept [] [] text := by
    show _ ∈ a.search accept text
    simp [split]
  obtain ⟨matched, -, accepted⟩ := acceptedIff.mp spoke
  refine ⟨spelled earlier, spelled later, whole.symm, start, ?_, piecesFilled _ read, matched,
    taken, accepted⟩
  rw [Hit.stop, start, byteLengthAppend]

section
variable {front here : List Char} (cut : text = front ++ here) (filled : here ≠ [])
include cut filled

theorem visitCovered {before rest : List Char} {c : Char} {found : μ}
    (seen : Visits a accept text before (c :: rest))
    (spoke : a.accepted? accept before (c :: rest) = some found)
    (begun : before.length ≤ front.length)
    (within : front.length < before.length + a.width found) :
    ∃ h ∈ a.hits accept text, h.start ≤ byteLength front ∧ byteLength front < h.stop := by
  obtain ⟨earlier, later, split, told⟩ := visitsHit seen spoke
  have size := congrArg List.length ((visitsText seen).trans cut)
  have long := List.length_pos_iff.mpr filled
  have reached : front.length <
      before.length + (c :: rest.take (a.width found - 1)).length := by
    simp only [List.length_append, List.length_reverse, List.length_cons,
      List.length_take] at size ⊢
    omega
  generalize c :: rest.take (a.width found - 1) = taken at split reached
  have place : before.length = (spelled earlier).length := by rw [told, List.length_reverse]
  rw [place] at begun reached
  have whole := a.spelledSearch accept text
  rw [split, spelledAppend, spelledCons] at whole
  obtain ⟨low, high⟩ := placeWithin (whole.trans cut) begun reached
  refine ⟨⟨byteLength (spelled earlier), found, taken⟩, ?_, low, high⟩
  exact hitsMember.mpr ⟨earlier, later, split, (Nat.zero_add _).symm⟩

theorem acceptedCovered {found : μ} (spoke : a.accepted? accept front.reverse here = some found) :
    ∃ h ∈ a.hits accept text, h.start ≤ byteLength front ∧ byteLength front < h.stop := by
  have back : text = front.reverse.reverse ++ here := by rw [cut, List.reverse_reverse]
  rcases visitsOrCovers a accept back with
    seen | ⟨before, c, rest, earlier, seen, read, begun, within⟩
  · obtain ⟨c, rest, rfl⟩ := List.exists_cons_of_ne_nil filled
    have wide := (acceptedMatch spoke).2
    have size : front.reverse.length = front.length := List.length_reverse
    exact visitCovered cut filled seen spoke (Nat.le_of_eq size) (by omega)
  · rw [List.length_reverse] at begun within
    exact visitCovered cut filled seen read (Nat.le_of_lt begun) within

end

end Alternation
end CommentStrip
