import Mathlib.Data.List.Basic
import Stanzas.Intent.Draft

/-!
# Drafts made step by step

Of all that a caller says about a draft only the last word on each field counts, and for the values
all words together. So the steps of a draft can be told from five views of them, one for each field:

    ofSteps x steps = { scope := x, attr := last? attr? steps, values := steps.flatMap added, … }
                                                                                    (ofSteps_eq)

and steps about different fields may come in any order (`ofSteps_congr`).
-/

namespace Stanzas

namespace Draft

/-- What a step is about. -/
inductive Field where
  | attr
  | values
  | presence
  | exclusive
  | allowNoValue
  deriving DecidableEq, Repr

namespace Step

/-- What the step is about. -/
def field : Step → Field
  | .attr _ => .attr
  | .value _ => .values
  | .values _ => .values
  | .presence _ => .presence
  | .absent => .presence
  | .exclusive _ => .exclusive
  | .allowNoValue _ => .allowNoValue

/-- The attribute that the step names. -/
def attr? : Step → Option Text
  | .attr name => some name
  | _ => none

/-- The values that the step adds. -/
def added : Step → List Text
  | .value v => [v]
  | .values vs => vs
  | _ => []

/-- The presence that the step asks for. -/
def presence? : Step → Option Presence
  | .presence p => some p
  | .absent => some .absent
  | _ => none

/-- What the step says on whether the values are all there shall be. -/
def exclusive? : Step → Option Bool
  | .exclusive b => some b
  | _ => none

/-- What the step says on attributes without a value. -/
def allowNoValue? : Step → Option Bool
  | .allowNoValue b => some b
  | _ => none

/-- A step says nothing on a field that it is not about. -/
theorem silent (s : Step) :
    (s.field ≠ .attr → s.attr? = none) ∧ (s.field ≠ .values → s.added = []) ∧
      (s.field ≠ .presence → s.presence? = none) ∧ (s.field ≠ .exclusive → s.exclusive? = none) ∧
      (s.field ≠ .allowNoValue → s.allowNoValue? = none) := by
  cases s <;> simp [field, attr?, added, presence?, exclusive?, allowNoValue?]

end Step

/-- The last word of some steps, as far as they say anything. -/
def last? {α : Type} (said? : Step → Option α) (steps : List Step) : Option α :=
  (steps.filterMap said?).getLast?

theorem last?_cons {α : Type} (said? : Step → Option α) (s : Step) (steps : List Step) :
    last? said? (s :: steps) = (last? said? steps).or (said? s) := by
  unfold last?
  rw [List.filterMap_cons]
  cases hs : said? s with
  | none => rw [Option.or_none]
  | some a =>
    rw [List.getLast?_cons]
    cases (steps.filterMap said?).getLast? <;> rfl

/-! ## Steps -/

/-- A step sets the field that it is about and leaves all others. -/
theorem step_eq (w : Draft) (s : Step) : w.step s =
    { scope := w.scope
      attr := s.attr?.or w.attr
      values := w.values ++ s.added
      presence := s.presence?.getD w.presence
      exclusive := s.exclusive?.getD w.exclusive
      allowNoValue := s.allowNoValue?.getD w.allowNoValue } := by
  cases s <;> simp [step, Step.attr?, Step.added, Step.presence?, Step.exclusive?,
    Step.allowNoValue?]

theorem foldl_step_eq (w : Draft) (steps : List Step) : steps.foldl step w =
    { scope := w.scope
      attr := (last? Step.attr? steps).or w.attr
      values := w.values ++ steps.flatMap Step.added
      presence := (last? Step.presence? steps).getD w.presence
      exclusive := (last? Step.exclusive? steps).getD w.exclusive
      allowNoValue := (last? Step.allowNoValue? steps).getD w.allowNoValue } := by
  induction steps generalizing w with
  | nil => simp [last?]
  | cons s steps ih =>
    rw [List.foldl_cons, ih, w.step_eq s]
    simp only [last?_cons, List.flatMap_cons, List.append_assoc, Option.or_assoc, Option.getD_or]

/-- The last words of the steps, and all values that they add. -/
theorem ofSteps_eq (x : Scope) (steps : List Step) : ofSteps x steps =
    { scope := x
      attr := last? Step.attr? steps
      values := steps.flatMap Step.added
      presence := (last? Step.presence? steps).getD .present
      exclusive := (last? Step.exclusive? steps).getD true
      allowNoValue := (last? Step.allowNoValue? steps).getD false } := by
  unfold ofSteps
  rw [foldl_step_eq, Option.or_none, List.nil_append]

/-! ## The order of steps -/

section
variable (steps : List Step)

theorem last?_filter {α : Type} (said? : Step → Option α) (f : Field)
    (hf : ∀ s, s.field ≠ f → said? s = none) :
    last? said? (steps.filter (·.field = f)) = last? said? steps := by
  unfold last?
  rw [List.filterMap_filter]
  congr 1
  apply List.filterMap_congr
  intro s _
  by_cases hs : s.field = f
  · simp [hs]
  · simp [hs, hf s hs]

theorem flatMap_added_filter :
    (steps.filter (·.field = .values)).flatMap Step.added = steps.flatMap Step.added := by
  induction steps with
  | nil => rfl
  | cons s steps ih =>
    by_cases hs : s.field = .values
    · rw [List.filter_cons_of_pos (by simpa using hs), List.flatMap_cons, List.flatMap_cons, ih]
    · have hnil : s.added = [] := s.silent.2.1 hs
      rw [List.filter_cons_of_neg (by simpa using hs), List.flatMap_cons, hnil, ih,
        List.nil_append]

end

/-- Steps that are the same ones in the same order field by field make the same draft, in whatever
order steps about different fields come. -/
theorem ofSteps_congr (x : Scope) (steps steps' : List Step)
    (h : ∀ f : Field, steps'.filter (·.field = f) = steps.filter (·.field = f)) :
    ofSteps x steps' = ofSteps x steps := by
  have hlast : ∀ {α : Type} (said? : Step → Option α) (f : Field),
      (∀ s, s.field ≠ f → said? s = none) → last? said? steps' = last? said? steps := by
    intro α said? f hf
    rw [← last?_filter steps' said? f hf, h f, last?_filter steps said? f hf]
  have hattr := hlast Step.attr? .attr fun s => s.silent.1
  have hpresence := hlast Step.presence? .presence fun s => s.silent.2.2.1
  have hexclusive := hlast Step.exclusive? .exclusive fun s => s.silent.2.2.2.1
  have hallow := hlast Step.allowNoValue? .allowNoValue fun s => s.silent.2.2.2.2
  have hvalues : steps'.flatMap Step.added = steps.flatMap Step.added := by
    rw [← flatMap_added_filter steps', h .values, flatMap_added_filter steps]
  rw [ofSteps_eq, ofSteps_eq, hattr, hpresence, hexclusive, hallow, hvalues]

end Draft

end Stanzas
