import Stanzas.Document

/-!
# Patches

A patch says which lines of a document to delete and what to insert in front of which line. All
numbers mean lines of the document that the patch is applied to, so no step of a patch shifts
another, and numbers past the end are without effect. Where `n` is the number of the first line of
`ls`, the lines of the result are

    p.splice n ls = the lines inserted at n, the first line unless deleted,
                    the lines inserted at n + 1, the second line unless deleted, …
-/

namespace Stanzas

/-- Lines to delete and lines to insert, by numbers of lines of one document. -/
structure Patch where
  /-- Ranges of lines, each from its first line up to one that is no longer in it. -/
  deleted : List (Nat × Nat) := []
  /-- Lines, and the line that they go in front of. -/
  inserted : List (Nat × List Line) := []
  deriving DecidableEq, Repr

namespace Patch

/-- The patch that changes nothing. -/
def empty : Patch := {}

instance : EmptyCollection Patch := ⟨empty⟩

/-! ## Steps -/

/-- Also deletes the lines from `start` up to, and without, `stop`. -/
def deleteRange (p : Patch) (start stop : Nat) : Patch :=
  { p with deleted := (start, stop) :: p.deleted }

/-- Also deletes one line. -/
def delete (p : Patch) (n : Nat) : Patch := p.deleteRange n (n + 1)

/-- Also inserts lines in front of line `n`, after those that are inserted there already. -/
def insert (p : Patch) (n : Nat) (ls : List Line) : Patch :=
  { p with inserted := p.inserted ++ [(n, ls)] }

/-- One step in the making of a patch. -/
inductive Step where
  | delete (n : Nat)
  | deleteRange (start stop : Nat)
  | insert (n : Nat) (ls : List Line)
  deriving DecidableEq, Repr

/-- The patch with one more step. -/
def step (p : Patch) : Step → Patch
  | .delete n => p.delete n
  | .deleteRange start stop => p.deleteRange start stop
  | .insert n ls => p.insert n ls

/-- The patch that some steps make. -/
def ofSteps (steps : List Step) : Patch := steps.foldl step ∅

/-! ## What a patch does to a line -/

/-- Whether the patch deletes a line. -/
def Deletes (p : Patch) (n : Nat) : Prop := ∃ r ∈ p.deleted, r.1 ≤ n ∧ n < r.2

instance (p : Patch) (n : Nat) : Decidable (p.Deletes n) :=
  inferInstanceAs (Decidable (∃ r ∈ p.deleted, r.1 ≤ n ∧ n < r.2))

/-- The lines that the patch inserts in front of a line. -/
def insertedAt (p : Patch) (n : Nat) : List Line :=
  (p.inserted.filter (·.1 = n)).flatMap Prod.snd

/-- Whether the patch deletes and inserts nothing at all. -/
def IsEmpty (p : Patch) : Prop := (∀ r ∈ p.deleted, r.2 ≤ r.1) ∧ ∀ i ∈ p.inserted, i.2 = []

instance (p : Patch) : Decidable p.IsEmpty := inferInstanceAs (Decidable (_ ∧ _))

/-- How many lines the patch inserts, those past the end of the document included. -/
def insertedLines (p : Patch) : Nat := (p.inserted.flatMap Prod.snd).length

theorem isEmpty_empty : IsEmpty ∅ := ⟨by simp [EmptyCollection.emptyCollection, empty],
  by simp [EmptyCollection.emptyCollection, empty]⟩

theorem deletes_deleteRange {p : Patch} {start stop n : Nat} :
    (p.deleteRange start stop).Deletes n ↔ p.Deletes n ∨ start ≤ n ∧ n < stop := by
  simp [Deletes, deleteRange, or_comm]

theorem deletes_delete {p : Patch} {m n : Nat} : (p.delete m).Deletes n ↔ p.Deletes n ∨ n = m := by
  rw [delete, deletes_deleteRange]
  exact or_congr Iff.rfl (by omega)

theorem deletes_insert {p : Patch} {m n : Nat} {ls : List Line} :
    (p.insert m ls).Deletes n ↔ p.Deletes n := Iff.rfl

theorem insertedAt_insert {p : Patch} {m n : Nat} {ls : List Line} :
    (p.insert m ls).insertedAt n = p.insertedAt n ++ if m = n then ls else [] := by
  by_cases h : m = n <;> simp [insertedAt, insert, h]

/-! ## Application -/

/-- The lines of the result, where the first of the given lines has the number `n`. -/
def splice (p : Patch) : Nat → List Line → List Line
  | n, [] => p.insertedAt n
  | n, l :: ls => p.insertedAt n ++ (if p.Deletes n then [] else [l]) ++ p.splice (n + 1) ls

/-- Whether the patch changes what stands at the end of a document with `n` lines. -/
def TouchesEnd (p : Patch) (n : Nat) : Prop := p.insertedAt n ≠ [] ∨ 0 < n ∧ p.Deletes (n - 1)

instance (p : Patch) (n : Nat) : Decidable (p.TouchesEnd n) := inferInstanceAs (Decidable (_ ∨ _))

/-- The patched document. Its last line is ended if the patch put it there, and a document that has
lost all its lines keeps one newline. -/
def apply (p : Patch) (d : Document) : Document :=
  if p.IsEmpty then d
  else
    let lines := p.splice 0 d.lines
    ⟨lines, d.ended ∨ p.TouchesEnd d.lines.length ∨ lines = []⟩

end Patch

end Stanzas
