import CommentStrip.Proofs.CStyle.Rescan
import CommentStrip.Proofs.Tally

/-! A second scan of what the first one left. Where the same regular expressions and brace
expressions open as in the text, nothing is left to remove. -/
namespace CommentStrip.CStyle
open Unicode Text

theorem visitsTaken {o : Options} {text before taken rest : List Char} {branch : Branch}
    (seen : (alternation o).Visits accepts text before (taken ++ rest))
    (applies : Applies o before branch taken rest) :
    (alternation o).Visits accepts text (taken.reverse ++ before) rest :=
  Alternation.visitsOver (lexemeFilled applies.lexeme) rfl (appliesSpeaks applies) seen

theorem visitsBrace {o : Options} {text before taken rest : List Char}
    (seen : (alternation o).Visits accepts text before (taken ++ rest))
    (opens : OpensBrace o before taken rest) :
    (alternation o).Visits accepts text (taken.reverse ++ before) rest :=
  Alternation.visitsOver opens.filled rfl opens.speaks seen

/- Wherever the scan comes to, a regular expression stands in the text exactly when one stands in
what is left of it. -/
def SameRegexes (o : Options) (text stripped : List Char) : Prop :=
  ∀ before here, (alternation o).Visits accepts text before here →
    readsRegex before here =
      readsRegex (stripped.take before.length).reverse (stripped.drop before.length)

theorem sameRegexesEverywhere {o : Options} {text stripped : List Char}
    (each : ∀ n < text.length + 1, readsRegex (text.take n).reverse (text.drop n) =
      readsRegex (stripped.take n).reverse (stripped.drop n)) : SameRegexes o text stripped := by
  intro before here seen
  obtain ⟨inside, front, back⟩ := Alternation.visitsPlace seen
  have same := each before.length inside
  rwa [front, back] at same

def remains (o : Options) (keep : KeepSet) (before here : List Char) : List Char :=
  left keep ((alternation o).searchFrom accepts before [] here)

def vanishes (o : Options) (keep : KeepSet) (before here : List Char) : Bool :=
  match (alternation o).accepted? accepts before here with
  | some ⟨.jsxComment, width⟩ => !keep.holds (jsxInner (here.take width))
  | _ => false

/- Each place that the scan comes to has a place in the stripped text, in front of what is left
behind it. The two are alike, except where a brace expression goes, and there nothing in front goes
on behind it. -/
structure SameOpenings (o : Options) (keep : KeepSet) (text : List Char) : Prop where
  apart : ∀ {before here}, (alternation o).Visits accepts text before here →
    vanishes o keep before here = true → joins before = false
  places : ∀ {before here before'}, (alternation o).Visits accepts text before here →
    vanishes o keep before here = false →
      (scan o keep text).1 = before'.reverse ++ remains o keep before here →
        Alike o before here before' (remains o keep before here)

section
variable {o : Options} {keep : KeepSet}

theorem scansRemains {before here out : List Char} {judged : List Bool}
    (scanned : Scans o keep before here out judged) : remains o keep before here = out :=
  (scansUnique scanned []).1

theorem goesVanish {before taken rest : List Char} (goes : Goes o keep before taken rest) :
    vanishes o keep before (taken ++ rest) = true := by
  rw [vanishes, goes.opens.speaks]
  simp [goes.gone]

theorem appliesStay {before taken rest : List Char} {branch : Branch}
    (applies : Applies o before branch taken rest) :
    vanishes o keep before (taken ++ rest) = false := by
  have other := appliesOther applies
  rw [vanishes, appliesSpeaks applies]
  cases branch <;> first | rfl | exact absurd rfl other

theorem bracesStay {before taken rest : List Char} (opens : OpensBrace o before taken rest)
    (holds : keep.holds (jsxInner taken) = true) :
    vanishes o keep before (taken ++ rest) = false := by
  rw [vanishes, opens.speaks]
  simp [holds]

theorem plainStays (plain : o.jsx = false) (before here : List Char) :
    vanishes o keep before here = false := by
  unfold vanishes
  split
  · rename_i width spoke
    obtain ⟨taken, rest, -, -, opens⟩ := braceIff.mp spoke
    exact absurd opens (plainBraceless plain)
  · rfl

theorem SameOpenings.bracesApart {text : List Char} (same : SameOpenings o keep text) :
    BracesApart o keep text := fun seen goes => same.apart seen (goesVanish goes)

theorem scansAgain {text stripped before here out : List Char} {judged : List Bool}
    (scanned : Scans o keep before here out judged) (same : SameOpenings o keep text)
    (stands : (scan o keep text).1 = stripped)
    (seen : (alternation o).Visits accepts text before here)
    {before' : List Char} (whole : stripped = before'.reverse ++ out) :
    Scans o keep before' out out (judged.filter id) := by
  have alike : ∀ {before here before' out judged}, Scans o keep before here out judged →
      (alternation o).Visits accepts text before here → vanishes o keep before here = false →
        stripped = before'.reverse ++ out → Alike o before here before' out := by
    intro before here before' out judged scanned seen stays whole
    rw [← scansRemains scanned] at whole ⊢
    exact same.places seen stays (stands.trans whole)
  -- The induction is on the first scan; `before'` is what it has left in front of the place.
  induction scanned generalizing before' with
  | done => exact .done
  | @past before c rest out judged passed later ih =>
    have stays : vanishes o keep before (c :: rest) = false := by rw [vanishes, passed]
    exact .past (passedAgain later passed (alike (.past passed later) seen stays whole))
      (ih (.past seen passed) (by simp [whole]))
  | @literal before branch taken rest out judged applies solid later ih =>
    have again : Applies o before' branch taken out := appliesAgain applies later
      (alike (.literal applies solid later) seen (appliesStay applies) whole)
    exact .literal again solid (ih (visitsTaken seen applies) (by simp [whole]))
  | @kept before branch taken rest out judged applies comment holds later ih =>
    have again : Applies o before' branch taken out := appliesAgain applies later
      (alike (.kept applies comment holds later) seen (appliesStay applies) whole)
    exact .kept again comment holds (ih (visitsTaken seen applies) (by simp [whole]))
  | @gone before branch taken rest out judged applies comment goes later ih =>
    exact scansBlank blankGap (ih (visitsTaken seen applies) (by simp [whole]))
  | @braceKept before taken rest out judged opens holds later ih =>
    have again : OpensBrace o before' taken out := braceAgain opens
      (alike (.braceKept opens holds later) seen (bracesStay opens holds) whole)
    exact .braceKept again holds (ih (visitsBrace seen opens) (by simp [whole]))
  | @braceGone before taken rest out judged goes apart later ih =>
    exact scansBlank collapseGap (ih (visitsBrace seen goes.opens) (by simp [whole]))

theorem scanAgain {text : List Char} (same : SameOpenings o keep text) :
    scan o keep (scan o keep text).1 =
      ((scan o keep text).1, ⟨0, (scan o keep text).2.kept⟩) := by
  have again : Scans o keep [] _ _ _ := scansAgain (scanScans same.bracesApart) same rfl .start rfl
  obtain ⟨leaves, decides⟩ := scansUnique again []
  rw [scanPieces o keep (scan o keep text).1, pieces, Alternation.search, leaves, decides,
    Tally.ofKeptDecisions, scanPieces o keep text]
  rfl

end

instance (o : Options) (before here before' here' : List Char) :
    Decidable (Alike o before here before' here') :=
  decidable_of_iff ((o.regexLiterals = true → readsRegex before here = readsRegex before' here') ∧
      (o.jsx = true → readsBrace before here = readsBrace before' here'))
    ⟨fun both => ⟨both.1, both.2⟩, fun alike => ⟨alike.regexes, alike.braces⟩⟩

theorem sameOpeningsEverywhere {o : Options} {keep : KeepSet} {text stripped : List Char}
    (stands : (scan o keep text).1 = stripped)
    (each : ∀ n < text.length + 1,
      if vanishes o keep (text.take n).reverse (text.drop n) then
        joins (text.take n).reverse = false
      else
        let behind := remains o keep (text.take n).reverse (text.drop n)
        let place := stripped.length - behind.length
        stripped.drop place = behind →
          Alike o (text.take n).reverse (text.drop n) (stripped.take place).reverse behind) :
    SameOpenings o keep text := by
  refine ⟨?_, ?_⟩
  · intro before here seen goes
    obtain ⟨inside, front, back⟩ := Alternation.visitsPlace seen
    have holds := each before.length inside
    rwa [front, back, if_pos goes] at holds
  · intro before here before' seen stays whole
    obtain ⟨inside, front, back⟩ := Alternation.visitsPlace seen
    have holds := each before.length inside
    rw [front, back, if_neg (by simp [stays])] at holds
    have long : stripped.length - (remains o keep before here).length = before'.reverse.length := by
      rw [← stands, whole, List.length_append]
      omega
    simp only [long] at holds
    rw [← stands, whole, List.drop_left, List.take_left, List.reverse_reverse] at holds
    exact holds rfl

theorem plainAlike {o : Options} (plain : o.jsx = false) {keep : KeepSet} {text : List Char}
    (regexes : o.regexLiterals = true → SameRegexes o text (scan o keep text).1)
    {before here before' : List Char} (seen : (alternation o).Visits accepts text before here)
    (whole : (scan o keep text).1 = before'.reverse ++ remains o keep before here) :
    Alike o before here before' (remains o keep before here) := by
  obtain ⟨out, leaves, scanned⟩ := scansPieces (plainApart plain keep text) seen []
  have behind : (remains o keep before here).length = here.length := by
    rw [scansRemains scanned]
    exact (scansBlanked plain scanned).length
  have even : before'.length = before.length := by
    have long := (scanBlanked plain keep text).length
    rw [whole, ← Alternation.visitsText seen] at long
    simp only [List.length_append, List.length_reverse] at long
    omega
  refine ⟨fun enabled => ?_, fun enabled => ?_⟩
  · have same := regexes enabled before here seen
    rwa [whole, ← even, ← List.length_reverse, List.take_left, List.drop_left,
      List.reverse_reverse] at same
  · rw [plain] at enabled
    cases enabled

theorem plainOpenings {o : Options} (plain : o.jsx = false) {keep : KeepSet} {text : List Char}
    (regexes : o.regexLiterals = true → SameRegexes o text (scan o keep text).1) :
    SameOpenings o keep text := by
  refine ⟨?_, fun seen _ whole => plainAlike plain regexes seen whole⟩
  intro before here seen goes
  rw [plainStays plain] at goes
  cases goes

theorem scanTwice {o : Options} (plain : o.jsx = false) (keep : KeepSet) (text : List Char)
    (regexes : o.regexLiterals = true → SameRegexes o text (scan o keep text).1) :
    scan o keep (scan o keep text).1 =
      ((scan o keep text).1, ⟨0, (scan o keep text).2.kept⟩) :=
  scanAgain (plainOpenings plain regexes)

theorem stylesheetTwice (lineComments : Bool) (keep : KeepSet) (text : List Char) :
    scan (.stylesheet lineComments) keep (scan (.stylesheet lineComments) keep text).1 =
      ((scan (.stylesheet lineComments) keep text).1,
        ⟨0, (scan (.stylesheet lineComments) keep text).2.kept⟩) :=
  scanTwice rfl keep text (fun enabled => by cases enabled)

end CommentStrip.CStyle
