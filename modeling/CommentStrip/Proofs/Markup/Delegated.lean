import CommentStrip.Proofs.Counting

/-! What a delegate has a say in. It is asked for the body of each PHP block in order, whatever it
answered before, and its answers stand in the places of these bodies and nowhere else. -/
namespace CommentStrip

namespace Php
variable {σ : Type}

structure Exchange where
  text : List Char
  keep : List String
  answer : Except DelegateError (List Char)

def Exchange.call (e : Exchange) : List Char × List String := (e.text, e.keep)

/- The same delegate behind a log of what it was asked and what it answered, the latest last. -/
def logging (ask : Session σ) : Session (List Exchange × σ) := fun text keep st =>
  let asked := (ask text keep).run st.2
  (asked.1, (st.1 ++ [⟨text, keep, asked.1⟩], asked.2))

theorem loggingRun (ask : Session σ) (text : List Char) (keep : List String) (log : List Exchange)
    (s : σ) : (logging ask text keep).run (log, s) =
      let asked := (ask text keep).run s
      (asked.1, (log ++ [⟨text, keep, asked.1⟩], asked.2)) := rfl

end Php

namespace Markup
open Text
variable {σ τ : Type}

inductive Emitted (keep : KeepSet) (body : List Char) :
    Except Php.DelegateError (List Char) → List Char → Prop where
  | reply (text) : Emitted keep body (.ok (openTagText ++ text)) text
  | untagged {text} (lost : startsWith openTagText text = false) :
      Emitted keep body (.ok text) (CStyle.scan .php keep body).1
  | failed (fault) : Emitted keep body (.error fault) (CStyle.scan .php keep body).1

inductive Answered (keep : KeepSet) :
    List (List Char) → List Php.Exchange → List (List Char) → Prop where
  | nil : Answered keep [] [] []
  | cons {body answer fill bodies log fills} (emitted : Emitted keep body answer fill)
      (later : Answered keep bodies log fills) :
      Answered keep (body :: bodies) (⟨openTagText ++ body, keep.sources, answer⟩ :: log)
        (fill :: fills)

/- The stretches of the first list, each two of them with one of the second list between. -/
inductive Woven : List (List Char) → List (List Char) → List Char → Prop where
  | last (stretch) : Woven [stretch] [] stretch
  | fill {stretch fill frame fills out} (later : Woven frame fills out) :
      Woven (stretch :: frame) (fill :: fills) (stretch ++ (fill ++ out))

def phpBodies (found : List Block) : List (List Char) :=
  (found.filter fun block => block.kind == .php).map Block.body

def ahead (front : List Char) : List (List Char) → List (List Char)
  | [] => [front]
  | stretch :: frame => (front ++ stretch) :: frame

def outside (keep : KeepSet) : List (Piece Region) → List (List Char)
  | [] => [[]]
  | .hit (.block .php opening body _) text :: rest =>
    text.take opening :: ahead (text.drop (opening + body)) (outside keep rest)
  | piece :: rest => ahead (scanPiece keep Php.noDelegate piece).text (outside keep rest)

theorem phpEmitted (keep : KeepSet) (body : List Char)
    (answer : Except Php.DelegateError (List Char)) :
    Emitted keep body answer (scanPhp keep (Php.answering answer) body).text := by
  cases answer with
  | error fault => exact .failed fault
  | ok text =>
    simp only [scanPhp, Php.answering]
    cases cut : after openTagText text with
    | some reply =>
      obtain rfl := afterSome.mp cut
      exact .reply reply
    | none => exact .untagged (by rw [startsWith, cut]; rfl)

theorem phpText (keep : KeepSet) (delegate : Php.Delegate) (opening body closing : Nat)
    (text : List Char) :
    (scanPiece keep delegate (.hit (.block .php opening body closing) text)).text =
      text.take opening ++ ((scanPhp keep delegate ((text.drop opening).take body)).text ++
        text.drop (opening + body)) := rfl

theorem answeredCalls {keep : KeepSet} {bodies fills : List (List Char)}
    {log : List Php.Exchange} (answered : Answered keep bodies log fills) :
    log.map Php.Exchange.call = bodies.map fun body => (openTagText ++ body, keep.sources) := by
  induction answered with
  | nil => rfl
  | cons emitted later ih => rw [List.map_cons, List.map_cons, ih]; rfl

theorem wovenAhead (front : List Char) {frame fills : List (List Char)} {out : List Char}
    (woven : Woven frame fills out) : Woven (ahead front frame) fills (front ++ out) := by
  cases woven with
  | last => exact .last _
  | fill later =>
    rw [← List.append_assoc]
    exact .fill later

section
variable {piece : Piece Region}
  (other : ∀ opening body closing text, piece ≠ .hit (.block .php opening body closing) text)
include other

theorem otherBodies (position : Nat) (rest : List (Piece Region)) :
    ∃ behind, phpBodies (blocksFrom position (piece :: rest)) =
      phpBodies (blocksFrom behind rest) := by
  cases piece with
  | gap text => exact ⟨_, rfl⟩
  | hit region text =>
    cases region with
    | comment kind extent => exact ⟨_, rfl⟩
    | block kind opening body closing =>
      cases kind with
      | script | style | verbatim => exact ⟨_, rfl⟩
      | php => exact absurd rfl (other opening body closing text)

theorem otherOutside (keep : KeepSet) (rest : List (Piece Region)) :
    outside keep (piece :: rest) =
      ahead (scanPiece keep Php.noDelegate piece).text (outside keep rest) := by
  rw [outside]
  exact other

end

theorem phpRun {keep : KeepSet} {ask : Php.Session σ} {opening body : Nat} {text : List Char}
    {s after : σ} {answer : Except Php.DelegateError (List Char)}
    (asked : (ask (openTagText ++ (text.drop opening).take body) keep.sources).run s =
      (answer, after)) (closing : Nat) (rest : List (Piece Region)) :
    (scanPiecesIn keep ask (.hit (.block .php opening body closing) text :: rest)).run s =
      ((scanPiece keep (Php.answering answer)
        (.hit (.block .php opening body closing) text)).append
          ((scanPiecesIn keep ask rest).run after).1, ((scanPiecesIn keep ask rest).run after).2) := by
  have run : (scanPiecesIn keep ask (.hit (.block .php opening body closing) text :: rest)).run s =
      let asked := (ask (openTagText ++ (text.drop opening).take body) keep.sources).run s
      ((scanPiece keep (Php.answering asked.1) (.hit (.block .php opening body closing) text)).append
        ((scanPiecesIn keep ask rest).run asked.2).1,
          ((scanPiecesIn keep ask rest).run asked.2).2) := rfl
  rw [run, asked]

theorem scanPiecesLogged (keep : KeepSet) (ask : Php.Session σ) (found : List (Piece Region))
    (log : List Php.Exchange) (s : σ) (position : Nat) :
    ∃ exchanges fills,
      (scanPiecesIn keep (Php.logging ask) found).run (log, s) =
        (((scanPiecesIn keep ask found).run s).1,
          (log ++ exchanges, ((scanPiecesIn keep ask found).run s).2)) ∧
      Answered keep (phpBodies (blocksFrom position found)) exchanges fills ∧
      Woven (outside keep found) fills ((scanPiecesIn keep ask found).run s).1.text := by
  induction found generalizing log s position with
  | nil => exact ⟨[], [], by rw [List.append_nil]; rfl, .nil, .last []⟩
  | cons piece rest ih =>
    by_cases php : ∃ opening body closing text, piece = .hit (.block .php opening body closing) text
    · obtain ⟨opening, body, closing, text, rfl⟩ := php
      let request := openTagText ++ (text.drop opening).take body
      obtain ⟨answer, after, asked⟩ :
          ∃ answer after, (ask request keep.sources).run s = (answer, after) := ⟨_, _, rfl⟩
      have logged : (Php.logging ask request keep.sources).run (log, s) =
          (answer, (log ++ [⟨request, keep.sources, answer⟩], after)) := by
        rw [Php.loggingRun, asked]
      obtain ⟨exchanges, fills, run, answered, woven⟩ :=
        ih (log ++ [⟨request, keep.sources, answer⟩]) after (position + byteLength text)
      have emitted := phpEmitted keep ((text.drop opening).take body) answer
      refine ⟨_ :: exchanges, _ :: fills, ?_, .cons emitted answered, ?_⟩
      · rw [phpRun logged, phpRun asked, run, List.append_assoc]
        rfl
      · rw [phpRun asked, appendText, phpText, List.append_assoc, List.append_assoc]
        exact .fill (wovenAhead _ woven)
    · have other (opening body closing text) :
          piece ≠ .hit (.block .php opening body closing) text :=
        fun same => php ⟨opening, body, closing, text, same⟩
      obtain ⟨behind, bodies⟩ := otherBodies other position rest
      obtain ⟨exchanges, fills, run, answered, woven⟩ := ih log s behind
      refine ⟨exchanges, fills, ?_, ?_, ?_⟩
      · simp only [scanPiecesIn, scanPieceInUnasked keep _ other, pure_bind, StateT.run_bind, run]
        rfl
      · rwa [bodies]
      · rw [otherOutside other, scanPiecesIn, scanPieceInUnasked keep _ other]
        exact wovenAhead _ woven

structure Confined (keep : KeepSet) (text : List Char) (log : List Php.Exchange)
    (out : List Char) : Prop where
  calls : log.map Php.Exchange.call =
    (phpBodies (blocks .blade text)).map fun body => (openTagText ++ body, keep.sources)
  woven : ∃ fills, Answered keep (phpBodies (blocks .blade text)) log fills ∧
    Woven (outside keep (pieces .blade text)) fills out

theorem scanConfined (keep : KeepSet) (text : List Char) (ask : Php.Session σ) (s : σ) :
    ∃ log, (scanIn .blade keep (Php.logging ask) text).run ([], s) =
        (((scanIn .blade keep ask text).run s).1, (log, ((scanIn .blade keep ask text).run s).2)) ∧
      Confined keep text log ((scanIn .blade keep ask text).run s).1.text := by
  obtain ⟨log, fills, run, answered, woven⟩ :=
    scanPiecesLogged keep ask (pieces .blade text) [] s 0
  exact ⟨log, run, answeredCalls answered, fills, answered, woven⟩

/- Two delegates are asked the same, and between their runs only what is put in the places of PHP
bodies differs. -/
theorem delegatesConfined (keep : KeepSet) (text : List Char) (ask : Php.Session σ)
    (other : Php.Session τ) (s : σ) (t : τ) :
    let one := (scanIn .blade keep (Php.logging ask) text).run ([], s)
    let two := (scanIn .blade keep (Php.logging other) text).run ([], t)
    one.1 = ((scanIn .blade keep ask text).run s).1 ∧
      two.1 = ((scanIn .blade keep other text).run t).1 ∧
      one.2.1.map Php.Exchange.call = two.2.1.map Php.Exchange.call ∧
      one.1.tally = two.1.tally ∧
      Confined keep text one.2.1 one.1.text ∧ Confined keep text two.2.1 two.1.text ∧
      ∀ delegate, ((scanIn .blade keep (Php.logging (Php.memoryless delegate)) text).run ([], s)).1 =
        scan .blade keep delegate text := by
  obtain ⟨log, run, confined⟩ := scanConfined keep text ask s
  obtain ⟨log', run', confined'⟩ := scanConfined keep text other t
  simp only [run, run']
  refine ⟨trivial, trivial, confined.calls.trans confined'.calls.symm, ?_, confined, confined', ?_⟩
  · rw [scanTally, scanTally]
  · intro delegate
    obtain ⟨log, run, -⟩ := scanConfined keep text (Php.memoryless delegate) s
    rw [run, scanMemoryless]
    rfl

end Markup
end CommentStrip
