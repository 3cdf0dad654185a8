import CommentStrip.Proofs.Counting
import CommentStrip.Proofs.Hits
import CommentStrip.Proofs.Markup.Forms
import CommentStrip.Proofs.Markup.Rescan

/-! The blocks of a template and its comments: where they lie in the text and how their delimiters
read, and that a scan writes nothing anew but bodies and comments. -/
namespace CommentStrip.Markup
open Unicode Text
variable {σ : Type}

inductive Segment where
  | block (b : Block)
  | comment (kind : CommentKind) (start : Nat) (raw : List Char)
  deriving DecidableEq, Repr

namespace Segment

def start : Segment → Nat
  | .block b => b.start
  | .comment _ start _ => start

def stop : Segment → Nat
  | .block b => b.stop
  | .comment _ start raw => start + byteLength raw

def block? : Segment → Option Block
  | .block b => some b
  | .comment _ _ _ => none

def read (position : Nat) : Region → (taken : List Char) → Segment
  | .comment kind _, taken => .comment kind position taken
  | .block kind opening body _, taken =>
    let bodyStart := position + byteLength (taken.take opening)
    let inner := (taken.drop opening).take body
    .block ⟨kind, position, bodyStart, bodyStart + byteLength inner, position + byteLength taken,
      inner⟩

theorem readStart (position : Nat) (region : Region) (taken : List Char) :
    (read position region taken).start = position := by
  cases region <;> rfl

theorem readStop (position : Nat) (region : Region) (taken : List Char) :
    (read position region taken).stop = position + byteLength taken := by
  cases region <;> rfl

theorem readBlock (position : Nat) (kind : BlockKind) (front inner back : List Char)
    (closing : Nat) :
    read position (.block kind front.length inner.length closing) (front ++ (inner ++ back)) =
      .block ⟨kind, position, position + byteLength front,
        position + byteLength front + byteLength inner,
        position + byteLength (front ++ (inner ++ back)), inner⟩ := by
  simp [read]

end Segment

def segmentsFrom (position : Nat) : List (Piece Region) → List Segment
  | [] => []
  | .gap text :: rest => segmentsFrom (position + byteLength text) rest
  | .hit region taken :: rest =>
    .read position region taken :: segmentsFrom (position + byteLength taken) rest

def segments (variant : MarkupVariant) (text : List Char) : List Segment :=
  segmentsFrom 0 (pieces variant text)

theorem segmentBlocks (position : Nat) (found : List (Piece Region)) :
    (segmentsFrom position found).filterMap Segment.block? = blocksFrom position found := by
  induction found generalizing position with
  | nil => rfl
  | cons piece rest ih =>
    cases piece with
    | gap text => exact ih _
    | hit region taken =>
      cases region with
      | comment kind extent => exact ih _
      | block kind opening body closing => exact congrArg (_ :: ·) (ih _)

theorem segmentsHits (position : Nat) (found : List (Piece Region)) :
    segmentsFrom position found =
      (hitsFrom position found).map fun h => .read h.start h.found h.raw := by
  induction found generalizing position with
  | nil => rfl
  | cons piece rest ih =>
    cases piece with
    | gap text => exact ih _
    | hit region taken => exact congrArg (_ :: ·) (ih _)

theorem segmentPlaced {position : Nat} {found : List (Piece Region)} {segment : Segment}
    (member : segment ∈ segmentsFrom position found) :
    ∃ earlier region taken later, found = earlier ++ .hit region taken :: later ∧
      segment = .read (position + byteLength (spelled earlier)) region taken := by
  rw [segmentsHits] at member
  obtain ⟨h, inside, rfl⟩ := List.mem_map.mp member
  obtain ⟨earlier, later, split, start⟩ := hitsMember.mp inside
  exact ⟨earlier, h.found, h.raw, later, split, by rw [start]⟩

theorem segmentsOrdered (position : Nat) (found : List (Piece Region)) :
    (segmentsFrom position found).Pairwise fun s t => s.stop ≤ t.start := by
  rw [segmentsHits, List.pairwise_map]
  refine (hitsOrdered position found).imp fun {g h} behind => ?_
  rw [Segment.readStop, Segment.readStart]
  exact behind

/- A block in its text, with the text on both sides of it and its delimiters. Each delimiter is what
its expression matches there, and the expression of the closing one matches nowhere in the body. -/
structure Embedded (text : List Char) (b : Block) (front opening closing back : List Char) :
    Prop where
  whole : text = front ++ (opening ++ (b.body ++ (closing ++ back)))
  start : b.start = byteLength front
  bodyStart : b.bodyStart = byteLength (front ++ opening)
  bodyStop : b.bodyStop = byteLength (front ++ opening ++ b.body)
  stop : b.stop = byteLength (front ++ opening ++ b.body ++ closing)
  filled : opening ≠ [] ∧ closing ≠ []
  opened : b.kind.opening.ends front.reverse (opening ++ (b.body ++ (closing ++ back))) =
    [opening.length]
  closed : b.kind.closing.ends (front ++ opening ++ b.body).reverse (closing ++ back) =
    [closing.length]
  first : ∀ here later, b.body = here ++ later → later ≠ [] →
    b.kind.closing.ends (front ++ opening ++ here).reverse (later ++ (closing ++ back)) = []
  plain : b.kind = .php → (trimStart b.body).head? ≠ some '('

structure CommentAt (text : List Char) (kind : CommentKind) (start : Nat)
    (raw front back : List Char) : Prop where
  whole : text = front ++ (raw ++ back)
  start : start = byteLength front
  matched : kind.form.extent front.reverse (raw ++ back) = some raw.length

theorem blockRead {kind : BlockKind} {here : List Char} {opening body closing : Nat}
    (found : block kind here = some (.block kind opening body closing)) :
    kind.opens here = some opening ∧
      firstWhere kind.closes (here.drop opening) = some (body, closing) := by
  simp only [block, bind, Option.bind_eq_some_iff] at found
  obtain ⟨opening', opens, ⟨body', closing'⟩, closes, last⟩ := found
  cases Option.some.inj last
  exact ⟨opens, closes⟩

section
variable {kind : BlockKind} {inner behind : List Char} {closing : Nat}
  (reached : firstWhere kind.closes (inner ++ behind) = some (inner.length, closing))
include reached

theorem closesBehindBody : kind.closes behind = some closing := by
  simpa using firstWhereHolds reached

theorem closingFirst {here later : List Char} (same : inner = here ++ later) (filled : later ≠ [])
    (before : List Char) : kind.closing.ends before (later ++ behind) = [] := by
  subst same
  have short : here.length < (here ++ later).length := by
    simpa using List.length_pos_iff.mpr filled
  have none := firstWhereFirst reached short
  rw [List.append_assoc, List.drop_left] at none
  rw [closingEnds, none]
  rfl

end

theorem inlineBehind {inner : List Char} (bracket : (trimStart inner).head? = some '(')
    (behind : List Char) : isInline (inner ++ behind) = true := by
  have filled : (inner.dropWhile isWhite).isEmpty = false := by
    rw [List.isEmpty_eq_false_iff]
    intro empty
    rw [trimStart, empty] at bracket
    cases bracket
  rw [trimStart] at bracket
  simp [isInline, trimStart, List.dropWhile_append, filled, List.head?_append, bracket]

section
variable {variant : MarkupVariant} {text : List Char} {earlier later : List (Piece Region)}

theorem regionOpens {region : Region} {taken : List Char}
    (split : pieces variant text = earlier ++ .hit region taken :: later) :
    Opens variant (taken ++ spelled later) region ∧ region.width = taken.length ∧
      text = spelled earlier ++ (taken ++ spelled later) := by
  obtain ⟨ahead, spoke⟩ := Alternation.hitAccepted earlier split
  have member : .hit region taken ∈ pieces variant text := by simp [split]
  have whole : spelled (pieces variant text) = text := Alternation.spelledSearch ..
  refine ⟨acceptedIff.mp spoke, Alternation.hitWidth (matchInside variant) member, ?_⟩
  rw [← whole, split]
  simp [spelled, Piece.text]

theorem blockEmbedded {kind : BlockKind} {opening body closing : Nat} {taken : List Char}
    (split : pieces variant text =
      earlier ++ .hit (.block kind opening body closing) taken :: later)
    {b : Block}
    (placed : .block b =
      Segment.read (byteLength (spelled earlier)) (.block kind opening body closing) taken) :
    b.kind ∈ blockKinds variant ∧ ∃ opening closing,
      Embedded text b (spelled earlier) opening closing (spelled later) := by
  obtain ⟨opens, long, whole⟩ := regionOpens split
  have within : opening + body ≤ taken.length := by
    rw [← long]
    exact Nat.le_add_right ..
  obtain ⟨front, inner, back, rfl, rfl, rfl⟩ := blockParts within
  obtain rfl : closing = back.length := by
    simp only [Region.width, List.length_append] at long
    omega
  rw [Segment.readBlock] at placed
  cases placed
  cases opens with
  | block known found notInline =>
    obtain ⟨opened, reached⟩ := blockRead found
    simp only [List.append_assoc, List.drop_left] at opened reached notInline whole
    have closed := closesBehindBody reached
    refine ⟨known, front, back, ?_⟩
    exact {
      whole := whole
      start := rfl
      bodyStart := (byteLengthAppend ..).symm
      bodyStop := by simp only [byteLengthAppend]
      stop := by simp only [byteLengthAppend, Nat.add_assoc]
      filled :=
        ⟨List.length_pos_iff.mp (opensLong opened), List.length_pos_iff.mp (closesLong closed)⟩
      opened := by
        rw [openingEnds, opened]
        rfl
      closed := by
        rw [closingEnds, closed]
        rfl
      first := fun here later same filled => closingFirst reached same filled _
      plain := by
        intro php bracket
        rw [inlineBehind bracket] at notInline
        cases notInline php }

theorem commentLies {kind : CommentKind} {extent : Nat} {taken : List Char}
    (split : pieces variant text = earlier ++ .hit (.comment kind extent) taken :: later) :
    CommentAt text kind (byteLength (spelled earlier)) taken (spelled earlier) (spelled later) := by
  obtain ⟨opens, long, whole⟩ := regionOpens split
  cases opens with
  | comment known found plain =>
    refine ⟨whole, rfl, ?_⟩
    have form := formExtent (.inr kind) (spelled earlier).reverse (taken ++ spelled later)
    rw [branchOf, found, Option.map_some, long] at form
    exact form

end

theorem specialKnown {variant : MarkupVariant} {kind : BlockKind}
    (known : kind ∈ blockKinds variant) (special : kind = .verbatim ∨ kind = .php) :
    variant = .blade := by
  cases variant with
  | blade => rfl
  | html | jinja => rcases special with rfl | rfl <;> simp [blockKinds] at known

section
variable {variant : MarkupVariant} {text : List Char}

theorem blockMember {b : Block} (member : b ∈ blocks variant text) :
    .block b ∈ segments variant text := by
  rw [blocks, ← segmentBlocks] at member
  obtain ⟨segment, inside, isBlock⟩ := List.mem_filterMap.mp member
  cases segment with
  | comment => cases isBlock
  | block b' =>
    cases isBlock
    exact inside

theorem blocksEmbedded {b : Block} (member : b ∈ blocks variant text) :
    b.kind ∈ blockKinds variant ∧
      ∃ front opening closing back, Embedded text b front opening closing back := by
  obtain ⟨earlier, region, taken, later, split, placed⟩ := segmentPlaced (blockMember member)
  rw [Nat.zero_add] at placed
  cases region with
  | comment => cases placed
  | block =>
    obtain ⟨known, opening, closing, lies⟩ := blockEmbedded split placed
    exact ⟨known, _, opening, closing, _, lies⟩

theorem commentsLie {kind : CommentKind} {start : Nat} {raw : List Char}
    (member : .comment kind start raw ∈ segments variant text) :
    ∃ front back, CommentAt text kind start raw front back := by
  obtain ⟨earlier, region, taken, later, split, placed⟩ := segmentPlaced member
  rw [Nat.zero_add] at placed
  cases region with
  | block => cases placed
  | comment =>
    cases placed
    exact ⟨_, _, commentLies split⟩

theorem Embedded.long {b : Block} {front opening closing back : List Char}
    (lies : Embedded text b front opening closing back) : b.start < b.stop := by
  have filled := byteLengthPositive lies.filled.1
  rw [lies.start, lies.stop]
  simp only [byteLengthAppend]
  omega

theorem blocksOrdered (variant : MarkupVariant) (text : List Char) :
    (blocks variant text).Pairwise fun b c => b.start < c.start ∧ b.stop ≤ c.start := by
  have apart : (blocks variant text).Pairwise fun b c => b.stop ≤ c.start := by
    rw [blocks, ← segmentBlocks]
    refine (segmentsOrdered 0 (pieces variant text)).filterMap _ ?_
    intro s t ordered b isB c isC
    cases s with
    | comment => cases isB
    | block =>
      cases t with
      | comment => cases isC
      | block =>
        cases isB
        cases isC
        exact ordered
  refine apart.imp_of_mem fun member _ behind => ⟨?_, behind⟩
  obtain ⟨-, front, opening, closing, back, lies⟩ := blocksEmbedded member
  exact Nat.lt_of_lt_of_le lies.long behind

end

theorem opensCovered {variant : MarkupVariant} {text front here : List Char}
    (cut : text = front ++ here) {region : Region} (opens : Opens variant here region) :
    ∃ segment ∈ segments variant text,
      segment.start ≤ byteLength front ∧ byteLength front < segment.stop := by
  have spoke : (alternation variant).accepted? accepts front.reverse here = some region :=
    acceptedIff.mpr opens
  obtain ⟨c, rest, rfl, -⟩ := matchHead (Alternation.acceptedMatch spoke).1
  obtain ⟨h, member, low, high⟩ :=
    Alternation.acceptedCovered cut (List.cons_ne_nil c rest) spoke
  refine ⟨.read h.start h.found h.raw, ?_, ?_, ?_⟩
  · rw [segments, segmentsHits]
    exact List.mem_map_of_mem member
  · rwa [Segment.readStart]
  · rwa [Segment.readStop]

structure Hole where
  start : Nat
  raw : List Char
  new : List Char

/- The output is the text behind `position` bytes with its holes filled. What lies between them is
copied. -/
inductive Patched :
    (position : Nat) → (text : List Char) → List Hole → (out : List Char) → Prop where
  | copied {position} (text) : Patched position text [] text
  | hole {position rest holes out} (between raw new)
      (later : Patched (position + byteLength between + byteLength raw) rest holes out) :
      Patched position (between ++ (raw ++ rest))
        (⟨position + byteLength between, raw, new⟩ :: holes) (between ++ (new ++ out))

inductive Filled (keep : KeepSet) : List Segment → List Hole → Prop where
  | nil : Filled keep [] []
  | comment {kind start raw segments holes} (later : Filled keep segments holes) :
      Filled keep (.comment kind start raw :: segments)
        (⟨start, raw, (scanComment keep raw).text⟩ :: holes)
  | verbatim {b segments holes} (left : b.kind = .verbatim) (later : Filled keep segments holes) :
      Filled keep (.block b :: segments) holes
  | body {b segments holes} (delegate : Php.Delegate) (scanned : b.kind ≠ .verbatim)
      (later : Filled keep segments holes) :
      Filled keep (.block b :: segments)
        (⟨b.bodyStart, b.body, (scanBody keep delegate b.kind b.body).text⟩ :: holes)

def Rewritten (variant : MarkupVariant) (keep : KeepSet) (text out : List Char) : Prop :=
  ∃ holes, Filled keep (segments variant text) holes ∧ Patched 0 text holes out

theorem patchedBehind {position : Nat} (front : List Char) {text out : List Char}
    {holes : List Hole} (patched : Patched (position + byteLength front) text holes out) :
    Patched position (front ++ text) holes (front ++ out) := by
  cases patched with
  | copied => exact .copied _
  | hole between raw new later =>
    rw [Nat.add_assoc position, ← byteLengthAppend] at later ⊢
    rw [← List.append_assoc, ← List.append_assoc front]
    exact .hole _ raw new later

theorem patchedBody {position : Nat} {front inner back taken text out : List Char}
    (parts : front ++ (inner ++ back) = taken) (new : List Char) {holes : List Hole}
    (patched : Patched (position + byteLength taken) text holes out) :
    Patched position (taken ++ text) (⟨position + byteLength front, inner, new⟩ :: holes)
      (front ++ (new ++ back) ++ out) := by
  subst parts
  simp only [byteLengthAppend, ← Nat.add_assoc] at patched
  simp only [List.append_assoc]
  exact .hole front inner new (patchedBehind back patched)

theorem piecePatched (keep : KeepSet) (delegate : Php.Delegate) {position : Nat}
    {rest : List (Piece Region)} {holes : List Hole} {out : List Char} (piece : Piece Region)
    (filled : Filled keep (segmentsFrom (position + byteLength piece.text) rest) holes)
    (patched : Patched (position + byteLength piece.text) (spelled rest) holes out) :
    ∃ more, Filled keep (segmentsFrom position (piece :: rest)) more ∧
      Patched position (piece.text ++ spelled rest) more
        ((scanPiece keep delegate piece).text ++ out) := by
  cases piece with
  | gap text => exact ⟨holes, filled, patchedBehind text patched⟩
  | hit region taken =>
    cases region with
    | comment kind extent => exact ⟨_, .comment filled, .hole [] taken _ patched⟩
    | block kind opening body closing =>
      have parts := blockCut opening body taken
      by_cases left : kind = .verbatim
      · subst left
        have copied : (scanPiece keep delegate
            (.hit (.block .verbatim opening body closing) taken)).text = taken := parts
        rw [copied]
        exact ⟨holes, .verbatim rfl filled, patchedBehind taken patched⟩
      · exact ⟨_, .body delegate left filled, patchedBody parts _ patched⟩

theorem scanPiecesPatched (keep : KeepSet) (ask : Php.Session σ) (found : List (Piece Region))
    (s : σ) (position : Nat) :
    ∃ holes, Filled keep (segmentsFrom position found) holes ∧
      Patched position (spelled found) holes ((scanPiecesIn keep ask found).run s).1.text := by
  -- Each piece hands on the state of the delegate and the position behind it.
  induction found generalizing s position with
  | nil => exact ⟨[], .nil, .copied []⟩
  | cons piece rest ih =>
    obtain ⟨delegate, answered⟩ := scanPieceAnswered keep ask piece s
    obtain ⟨holes, filled, patched⟩ := ih ((scanPieceIn keep ask piece).run s).2
      (position + byteLength piece.text)
    rw [scanPiecesStep, appendText, answered]
    exact piecePatched keep delegate piece filled patched

theorem scanRewritten {variant : MarkupVariant} (single : variant ≠ .jinja) (keep : KeepSet)
    (ask : Php.Session σ) (text : List Char) (s : σ) :
    Rewritten variant keep text ((scanIn variant keep ask text).run s).1.text := by
  obtain ⟨holes, filled, patched⟩ := scanPiecesPatched keep ask (pieces variant text) s 0
  have whole : spelled (pieces variant text) = text := Alternation.spelledSearch ..
  rw [whole] at patched
  cases variant with
  | jinja => exact absurd rfl single
  | html | blade => exact ⟨holes, filled, patched⟩

/- The blocks of a template stand one behind the other. Each lies in the text with its delimiters
around its body, as their expressions match them, and the closing one is the first that follows; no
PHP block is an inline expression, and there are verbatim and PHP blocks in one variant only. Nothing
that opens outside of blocks and comments is overlooked. Where there is one pass, and whatever
delegates answer and remember, the scan copies the text but for the comments and for the bodies of
the blocks that are not verbatim. -/
theorem blocksWellFormed (variant : MarkupVariant) (text : List Char) :
    (blocks variant text).Pairwise (fun b c => b.start < c.start ∧ b.stop ≤ c.start) ∧
      (∀ b ∈ blocks variant text,
        (b.kind = .verbatim ∨ b.kind = .php → variant = .blade) ∧
          ∃ front opening closing back, Embedded text b front opening closing back) ∧
      (segments variant text).filterMap Segment.block? = blocks variant text ∧
      (∀ kind start raw, .comment kind start raw ∈ segments variant text →
        ∃ front back, CommentAt text kind start raw front back) ∧
      (∀ front here region, text = front ++ here → Opens variant here region →
        ∃ segment ∈ segments variant text,
          segment.start ≤ byteLength front ∧ byteLength front < segment.stop) ∧
      (variant ≠ .jinja → ∀ keep,
        (∀ delegate, Rewritten variant keep text (scan variant keep delegate text).text) ∧
          ∀ (ask : Php.Session σ) s,
            Rewritten variant keep text ((scanIn variant keep ask text).run s).1.text) := by
  refine ⟨blocksOrdered variant text, ?_, segmentBlocks 0 (pieces variant text), ?_, ?_, ?_⟩
  · intro b member
    obtain ⟨known, lies⟩ := blocksEmbedded member
    exact ⟨specialKnown known, lies⟩
  · exact fun kind start raw member => commentsLie member
  · exact fun front here region cut opens => opensCovered cut opens
  · intro single keep
    refine ⟨?_, fun ask s => scanRewritten single keep ask text s⟩
    intro delegate
    have rewritten := scanRewritten single keep (Php.memoryless delegate) text ()
    rwa [scanMemoryless] at rewritten

theorem blocksWellFormedBlade :
    let text := "@verbatim//@endverbatim<!--b-->@php /**/ @endphp".toList
    let verbatim : Block := ⟨.verbatim, 0, 9, 11, 23, "//".toList⟩
    let php : Block := ⟨.php, 31, 35, 41, 48, " /**/ ".toList⟩
    blocks .blade text = [verbatim, php] ∧
      (∃ front opening closing back, Embedded text verbatim front opening closing back) ∧
      (∃ front opening closing back, Embedded text php front opening closing back) ∧
      (∃ front back, CommentAt text .html 23 "<!--b-->".toList front back) ∧
      (∃ segment ∈ segments .blade text, segment.start ≤ 31 ∧ 31 < segment.stop) ∧
      (scan .blade .empty Php.noDelegate text).text =
        "@verbatim//@endverbatim        @php      @endphp".toList ∧
      Rewritten .blade .empty text (scan .blade .empty Php.noDelegate text).text := by
  intro text verbatim php
  have found : blocks .blade text = [verbatim, php] := by decide +kernel
  obtain ⟨-, lie, -, comments, covered, rewritten⟩ := blocksWellFormed (σ := Unit) .blade text
  have opens : Opens .blade "@php /**/ @endphp".toList (.block .php 4 6 7) :=
    .block (by decide) (by decide) (by decide)
  refine ⟨found, (lie verbatim ?_).2, (lie php ?_).2, comments .html 23 _ ?_,
    covered "@verbatim//@endverbatim<!--b-->".toList _ _ rfl opens, by decide +kernel,
    (rewritten (by decide) .empty).1 Php.noDelegate⟩
  · simp [found]
  · simp [found]
  · have read : segments .blade text =
        [.block verbatim, .comment .html 23 "<!--b-->".toList, .block php] := by decide +kernel
    simp [read]

end CommentStrip.Markup
