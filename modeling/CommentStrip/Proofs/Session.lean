import CommentStrip.Engine
import CommentStrip.Proofs.Markup.Opening

/-! A run of the engine with a delegate that remembers: what it answers may depend on what it was
asked before. The state behind a run shows whether it was asked at all. A delegate without a memory
gives the run that the engine has. -/
namespace CommentStrip

namespace Php

abbrev Session (σ : Type) := (text : List Char) → (keep : List String) →
  StateM σ (Except DelegateError (List Char))

def memoryless {σ : Type} (delegate : Delegate) : Session σ := fun text keep =>
  return delegate text keep

def answering (answer : Except DelegateError (List Char)) : Delegate := fun _ _ => answer

end Php

namespace Markup
variable {σ : Type}

def scanPieceIn (keep : KeepSet) (ask : Php.Session σ) : Piece Region → StateM σ Scanned
  | .hit (.block .php opening body closing) text => do
    let answer ← ask (openTagText ++ (text.drop opening).take body) keep.sources
    return scanPiece keep (Php.answering answer) (.hit (.block .php opening body closing) text)
  | piece => return scanPiece keep Php.noDelegate piece

def scanPiecesIn (keep : KeepSet) (ask : Php.Session σ) : List (Piece Region) → StateM σ Scanned
  | [] => return .join []
  | piece :: rest => do
    let here ← scanPieceIn keep ask piece
    let later ← scanPiecesIn keep ask rest
    return here.append later

def lastPass (keep : KeepSet) (variant : MarkupVariant) (first : Scanned) : Scanned :=
  match variant with
  | .jinja =>
    let second := jinjaPass keep first.text
    ⟨second.text, first.tally.merge second.tally, first.requests⟩
  | _ => first

def scanIn (variant : MarkupVariant) (keep : KeepSet) (ask : Php.Session σ) (text : List Char) :
    StateM σ Scanned := do
  let first ← scanPiecesIn keep ask (pieces variant text)
  return lastPass keep variant first

end Markup

namespace Engine
variable {σ : Type}

def stripIn (keep : KeepSet) (ask : Php.Session σ) (family : Family) (text : List Char) :
    StateM σ Outcome :=
  match family with
  | .php => do
    let answer ← ask text keep.sources
    return stripPhp ⟨keep, Php.answering answer⟩ text
  | .markup variant => do
    let scanned ← Markup.scanIn variant keep ask text
    return ⟨scanned.text, scanned.tally, false, scanned.requests⟩
  | _ => return (withoutPhp keep).strip family text

/- Templates are counted with a delegate that refuses, in place of the one at hand. -/
def analyzeIn (keep : KeepSet) (ask : Php.Session σ) (family : Family) (text : List Char) :
    StateM σ Tally :=
  match family with
  | .php => return CStyle.tally (CStyle.classify .php keep text)
  | .markup variant => do
    let scanned ← Markup.scanIn variant keep (Php.memoryless Php.noDelegate) text
    return scanned.tally
  | _ => do
    let outcome ← stripIn keep ask family text
    return outcome.tally

end Engine

namespace Markup
variable {σ : Type}

theorem blockKnown {variant : MarkupVariant} {text taken : List Char} {kind : BlockKind}
    {opening body closing : Nat}
    (member : .hit (.block kind opening body closing) taken ∈ pieces variant text) :
    kind ∈ blockKinds variant := by
  obtain ⟨rest, matched⟩ := Alternation.hitsRead member
  obtain ⟨branch, known, spoke⟩ := List.exists_of_findSome?_eq_some matched
  rw [branchesOf] at known
  rcases List.mem_append.mp known with isBlock | isComment
  · obtain ⟨kind', knownKind, rfl⟩ := List.mem_map.mp isBlock
    cases (blockPromised spoke).1
    exact knownKind
  · obtain ⟨kind', -, rfl⟩ := List.mem_map.mp isComment
    cases (commentPromised spoke).1

theorem scanPieceUnasked (keep : KeepSet) (delegate : Php.Delegate) {piece : Piece Region}
    (other : ∀ opening body closing text, piece ≠ .hit (.block .php opening body closing) text) :
    scanPiece keep delegate piece = scanPiece keep Php.noDelegate piece := by
  cases piece with
  | gap text => rfl
  | hit region text =>
    cases region with
    | comment kind extent => rfl
    | block kind opening body closing =>
      cases kind with
      | script | style | verbatim => rfl
      | php => exact absurd rfl (other opening body closing text)

theorem scanPieceAnswered (keep : KeepSet) (ask : Php.Session σ) (piece : Piece Region) (s : σ) :
    ∃ delegate, ((scanPieceIn keep ask piece).run s).1 = scanPiece keep delegate piece := by
  fun_cases scanPieceIn keep ask piece with
  | case1 opening body closing text => exact ⟨_, rfl⟩
  | case2 piece other => exact ⟨_, rfl⟩

theorem scanPiecesStep (keep : KeepSet) (ask : Php.Session σ) (piece : Piece Region)
    (rest : List (Piece Region)) (s : σ) :
    ((scanPiecesIn keep ask (piece :: rest)).run s).1 =
      ((scanPieceIn keep ask piece).run s).1.append
        ((scanPiecesIn keep ask rest).run ((scanPieceIn keep ask piece).run s).2).1 := rfl

theorem scanPieceInUnasked (keep : KeepSet) (ask : Php.Session σ) {piece : Piece Region}
    (other : ∀ opening body closing text, piece ≠ .hit (.block .php opening body closing) text) :
    scanPieceIn keep ask piece = pure (scanPiece keep Php.noDelegate piece) := by
  fun_cases scanPieceIn keep ask piece with
  | case1 opening body closing text => exact absurd rfl (other opening body closing text)
  | case2 => rfl

theorem scanPieceMemoryless (keep : KeepSet) (delegate : Php.Delegate) (piece : Piece Region) :
    scanPieceIn (σ := σ) keep (Php.memoryless delegate) piece =
      pure (scanPiece keep delegate piece) := by
  fun_cases scanPieceIn keep (Php.memoryless (σ := σ) delegate) piece with
  | case1 opening body closing text => rfl
  | case2 piece other => rw [scanPieceUnasked keep delegate other]

theorem scanPiecesMemoryless (keep : KeepSet) (delegate : Php.Delegate)
    (found : List (Piece Region)) :
    scanPiecesIn (σ := σ) keep (Php.memoryless delegate) found =
      pure (.join (found.map (scanPiece keep delegate))) := by
  induction found with
  | nil => rfl
  | cons piece rest ih =>
    rw [scanPiecesIn, scanPieceMemoryless, ih]
    rfl

theorem scanLast (variant : MarkupVariant) (keep : KeepSet) (delegate : Php.Delegate)
    (text : List Char) :
    scan variant keep delegate text =
      lastPass keep variant (.join ((pieces variant text).map (scanPiece keep delegate))) := by
  cases variant <;> rfl

theorem scanUnasked {variant : MarkupVariant} (known : .php ∉ blockKinds variant) (keep : KeepSet)
    (delegate : Php.Delegate) (text : List Char) :
    scan variant keep delegate text = scan variant keep Php.noDelegate text := by
  rw [scanLast, scanLast]
  congr 2
  refine List.map_congr_left fun piece member => scanPieceUnasked keep delegate ?_
  rintro opening body closing taken rfl
  exact known (blockKnown member)

theorem scanMemoryless (variant : MarkupVariant) (keep : KeepSet) (delegate : Php.Delegate)
    (text : List Char) :
    scanIn (σ := σ) variant keep (Php.memoryless delegate) text =
      pure (scan variant keep delegate text) := by
  rw [scanIn, scanPiecesMemoryless, scanLast]
  rfl

end Markup

namespace Engine
variable {σ : Type}

theorem stripMemoryless (e : Engine) (family : Family) (text : List Char) :
    stripIn (σ := σ) e.keep (Php.memoryless e.delegate) family text =
      pure (e.strip family text) := by
  cases family with
  | python | script jsx | stylesheet lineComments | php => rfl
  | markup variant =>
    rw [stripIn, Markup.scanMemoryless]
    rfl

end Engine
end CommentStrip
