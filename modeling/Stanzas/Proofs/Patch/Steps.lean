import Mathlib.Algebra.BigOperators.Group.Finset.Piecewise
import Mathlib.Data.List.Basic
import Stanzas.Proofs.Patch

/-!
# What steps make of a document

A patch is made step by step, but only two things count of all its steps: which lines they delete
(`DeletedBy`) and what they insert in front of each line, in the order of the steps (`insertedBy`).

    ((ofSteps steps).apply d).lines =
      (d.lines.zipIdx.flatMap fun l =>
        insertedBy steps l.2 ++ if DeletedBy steps l.2 then [] else [l.1]) ++
          insertedBy steps d.lines.length                                       (splices_ofSteps)

So steps may be put in any other order in which the insertions at one line keep theirs, a deletion
may be repeated, and steps behind the end of the document do nothing to its lines.
-/

namespace Stanzas

namespace Patch

/-! ## What a step does -/

namespace Step

/-- Whether a step deletes a line. -/
def Deletes (n : Nat) : Step → Prop
  | .delete m => n = m
  | .deleteRange start stop => start ≤ n ∧ n < stop
  | .insert _ _ => False

instance (n : Nat) : (st : Step) → Decidable (st.Deletes n)
  | .delete m => inferInstanceAs (Decidable (n = m))
  | .deleteRange start stop => inferInstanceAs (Decidable (start ≤ n ∧ n < stop))
  | .insert _ _ => inferInstanceAs (Decidable False)

/-- The line that a step inserts in front of, if it is an insertion. -/
def insertLine? : Step → Option Nat
  | .insert n _ => some n
  | _ => none

/-- The lines that a step inserts in front of a line. -/
def insertedAt (n : Nat) : Step → List Line
  | .insert m ls => if m = n then ls else []
  | _ => []

theorem insertedAt_eq_nil (st : Step) (n : Nat) (h : st.insertLine? ≠ some n) :
    st.insertedAt n = [] := by
  cases st with
  | delete m => rfl
  | deleteRange start stop => rfl
  | insert m ls => exact if_neg fun hm => h (congrArg some hm)

end Step

/-- Whether some step deletes a line. -/
def DeletedBy (steps : List Step) (n : Nat) : Prop := ∃ st ∈ steps, st.Deletes n

instance (steps : List Step) (n : Nat) : Decidable (DeletedBy steps n) :=
  inferInstanceAs (Decidable (∃ st ∈ steps, st.Deletes n))

/-- All that steps insert in front of a line. -/
def insertedBy (steps : List Step) (n : Nat) : List Line := steps.flatMap (Step.insertedAt n)

/-- The lines that steps insert in front of. -/
def insertLines (steps : List Step) : Finset Nat := (steps.filterMap Step.insertLine?).toFinset

section
variable (p : Patch) (st : Step) (n : Nat)

theorem deletes_step : (p.step st).Deletes n ↔ p.Deletes n ∨ st.Deletes n := by
  cases st with
  | delete m => exact deletes_delete
  | deleteRange start stop => exact deletes_deleteRange
  | insert m ls => exact deletes_insert.trans (or_iff_left id).symm

theorem insertedAt_step : (p.step st).insertedAt n = p.insertedAt n ++ st.insertedAt n := by
  cases st with
  | delete m => exact (List.append_nil _).symm
  | deleteRange start stop => exact (List.append_nil _).symm
  | insert m ls => exact insertedAt_insert

end

/-! ## What all steps do -/

theorem deletes_foldl_step (p : Patch) (steps : List Step) (n : Nat) :
    (steps.foldl step p).Deletes n ↔ p.Deletes n ∨ DeletedBy steps n := by
  unfold DeletedBy
  induction steps generalizing p with
  | nil => simp
  | cons st steps ih =>
    rw [List.foldl_cons, ih, deletes_step, or_assoc]
    simp only [List.mem_cons, exists_eq_or_imp]

theorem insertedAt_foldl_step (p : Patch) (steps : List Step) (n : Nat) :
    (steps.foldl step p).insertedAt n = p.insertedAt n ++ insertedBy steps n := by
  unfold insertedBy
  induction steps generalizing p with
  | nil => simp
  | cons st steps ih =>
    rw [List.foldl_cons, ih, insertedAt_step, List.flatMap_cons, List.append_assoc]

theorem deletes_ofSteps (steps : List Step) (n : Nat) :
    (ofSteps steps).Deletes n ↔ DeletedBy steps n := by
  unfold ofSteps
  rw [deletes_foldl_step, or_iff_right (not_deletes_empty n)]

theorem insertedAt_ofSteps (steps : List Step) (n : Nat) :
    (ofSteps steps).insertedAt n = insertedBy steps n := by
  unfold ofSteps
  rw [insertedAt_foldl_step, insertedAt_empty, List.nil_append]

theorem insertedLines_step (p : Patch) (st : Step) (K : Finset Nat)
    (hK : ∀ n, st.insertLine? = some n → n ∈ K) :
    (p.step st).insertedLines = p.insertedLines + ∑ n ∈ K, (st.insertedAt n).length := by
  -- a deletion adds nothing to any of the sums
  have hnone : (∀ n, st.insertedAt n = []) → ∑ n ∈ K, (st.insertedAt n).length = 0 := by
    intro h
    simp only [h, List.length_nil, Finset.sum_const_zero]
  cases st with
  | delete m =>
    rw [hnone fun n => rfl]
    rfl
  | deleteRange start stop =>
    rw [hnone fun n => rfl]
    rfl
  | insert m ls =>
    have hsum : ∑ n ∈ K, (Step.insertedAt n (.insert m ls)).length = ls.length := by
      simp only [Step.insertedAt, apply_ite List.length, List.length_nil, Finset.sum_ite_eq]
      exact if_pos (hK m rfl)
    rw [hsum]
    simp [insertedLines, step, insert]

theorem insertedLines_foldl_step (p : Patch) (steps : List Step) (K : Finset Nat)
    (hK : ∀ st ∈ steps, ∀ n, st.insertLine? = some n → n ∈ K) :
    (steps.foldl step p).insertedLines =
      p.insertedLines + ∑ n ∈ K, (insertedBy steps n).length := by
  unfold insertedBy
  induction steps generalizing p with
  | nil => simp
  | cons st steps ih =>
    rw [List.foldl_cons, ih _ fun s hs => hK s (List.mem_cons_of_mem _ hs),
      p.insertedLines_step st K (hK st List.mem_cons_self), Nat.add_assoc,
      ← Finset.sum_add_distrib]
    simp only [List.flatMap_cons, List.length_append]

theorem mem_insertLines_iff (steps : List Step) (n : Nat) :
    n ∈ insertLines steps ↔ ∃ st ∈ steps, st.insertLine? = some n := by
  unfold insertLines
  rw [List.mem_toFinset, List.mem_filterMap]

theorem insertedLines_ofSteps (steps : List Step) : (ofSteps steps).insertedLines =
    ∑ n ∈ insertLines steps, (insertedBy steps n).length := by
  have hK : ∀ st ∈ steps, ∀ n, st.insertLine? = some n → n ∈ insertLines steps := by
    intro st hst n hn
    exact (mem_insertLines_iff steps n).2 ⟨st, hst, hn⟩
  unfold ofSteps
  rw [insertedLines_foldl_step ∅ steps _ hK]
  exact Nat.zero_add _

theorem insertedBy_eq_nil (steps : List Step) (n : Nat) (h : n ∉ insertLines steps) :
    insertedBy steps n = [] := by
  unfold insertedBy
  rw [List.flatMap_eq_nil_iff]
  intro st hst
  apply st.insertedAt_eq_nil n
  exact fun hn => h ((mem_insertLines_iff steps n).2 ⟨st, hst, hn⟩)

/-! ## What a patch depends on -/

section
variable (p q : Patch)

theorem splice_eq_flatMap (n : Nat) (ls : List Line) : p.splice n ls =
    ((ls.zipIdx n).flatMap fun l => p.insertedAt l.2 ++ if p.Deletes l.2 then [] else [l.1]) ++
      p.insertedAt (n + ls.length) := by
  induction ls generalizing n with
  | nil => rfl
  | cons l ls ih =>
    have hlen : n + (l :: ls).length = n + 1 + ls.length := Nat.add_right_comm n ls.length 1
    rw [splice, ih, hlen, List.zipIdx_cons, List.flatMap_cons]
    simp only [List.append_assoc]

/-- What a patch does to numbers that no line has does not show in the lines. -/
theorem splice_congr (n : Nat) (ls : List Line)
    (hdel : ∀ m, m < n + ls.length → (p.Deletes m ↔ q.Deletes m))
    (hins : ∀ m, m ≤ n + ls.length → p.insertedAt m = q.insertedAt m) :
    p.splice n ls = q.splice n ls := by
  induction ls generalizing n with
  | nil => exact hins n (Nat.le_refl n)
  | cons l ls ih =>
    have hlen : n + (l :: ls).length = n + 1 + ls.length := Nat.add_right_comm n ls.length 1
    rw [hlen] at hdel hins
    simp only [splice, ih (n + 1) hdel hins, hins n (by omega), hdel n (by omega)]

theorem apply_congr (d : Document) (hdel : ∀ n, p.Deletes n ↔ q.Deletes n)
    (hins : ∀ n, p.insertedAt n = q.insertedAt n) : p.apply d = q.apply d := by
  have hempty : p.IsEmpty ↔ q.IsEmpty := by simp only [isEmpty_iff, hdel, hins]
  have hlines := p.splice_congr q 0 d.lines (fun n _ => hdel n) fun n _ => hins n
  have hend : p.TouchesEnd d.lines.length ↔ q.TouchesEnd d.lines.length := by
    unfold TouchesEnd
    rw [hins, hdel]
  unfold apply
  simp only [hempty, hlines, hend]

end

/-! ## The result -/

/-- What steps make of a document. -/
structure Splices (steps : List Step) (d : Document) : Prop where
  isEmpty_iff : (ofSteps steps).IsEmpty ↔
    (∀ n, ¬ DeletedBy steps n) ∧ ∀ n, insertedBy steps n = []
  insertedLines_eq : (ofSteps steps).insertedLines =
    ∑ n ∈ insertLines steps, (insertedBy steps n).length
  insertedBy_eq_nil : ∀ n, n ∉ insertLines steps → insertedBy steps n = []
  apply_of_isEmpty : (ofSteps steps).IsEmpty → (ofSteps steps).apply d = d
  lines_apply : ((ofSteps steps).apply d).lines =
    (d.lines.zipIdx.flatMap fun l =>
      insertedBy steps l.2 ++ if DeletedBy steps l.2 then [] else [l.1]) ++
        insertedBy steps d.lines.length
  /-- The last line is ended if it was, if it is new, or if a line was behind it. -/
  ended_apply : ¬ (ofSteps steps).IsEmpty → (((ofSteps steps).apply d).ended = true ↔
    d.ended = true ∨ insertedBy steps d.lines.length ≠ [] ∨
      (0 < d.lines.length ∧ DeletedBy steps (d.lines.length - 1)) ∨
        ((ofSteps steps).apply d).lines = [])
  /-- Only the order of the insertions at one line counts. -/
  apply_of_perm : ∀ others : List Step, others.Perm steps →
    (∀ n, others.filter (·.insertLine? = some n) = steps.filter (·.insertLine? = some n)) →
      (ofSteps others).apply d = (ofSteps steps).apply d
  /-- A deletion of lines that are deleted does nothing, wherever it stands. -/
  apply_of_repeated : ∀ front back st, steps = front ++ back → st.insertLine? = none →
    (∀ n, st.Deletes n → DeletedBy steps n) →
      (ofSteps (front ++ st :: back)).apply d = (ofSteps steps).apply d
  /-- A step behind the end takes no line and adds none. -/
  lines_of_out_of_range : ∀ front back st, steps = front ++ back →
    (∀ n, st.Deletes n → d.lines.length ≤ n) →
      (∀ n, st.insertLine? = some n → d.lines.length < n) →
        ((ofSteps (front ++ st :: back)).apply d).lines = ((ofSteps steps).apply d).lines

section
variable (steps : List Step) (d : Document)

theorem insertedBy_filter (n : Nat) :
    insertedBy (steps.filter (·.insertLine? = some n)) n = insertedBy steps n := by
  unfold insertedBy
  induction steps with
  | nil => rfl
  | cons st steps ih =>
    by_cases hn : st.insertLine? = some n
    · rw [List.filter_cons_of_pos (by simpa using hn), List.flatMap_cons, List.flatMap_cons, ih]
    · rw [List.filter_cons_of_neg (by simpa using hn), ih, List.flatMap_cons,
        st.insertedAt_eq_nil n hn, List.nil_append]

theorem deletedBy_append_cons (front back : List Step) (st : Step) (n : Nat) :
    DeletedBy (front ++ st :: back) n ↔ st.Deletes n ∨ DeletedBy (front ++ back) n := by
  unfold DeletedBy
  simp only [List.perm_middle.mem_iff, List.mem_cons, exists_eq_or_imp]

theorem insertedBy_append_cons (front back : List Step) (st : Step) (n : Nat)
    (h : st.insertedAt n = []) :
    insertedBy (front ++ st :: back) n = insertedBy (front ++ back) n := by
  unfold insertedBy
  rw [List.flatMap_append, List.flatMap_append, List.flatMap_cons, h, List.nil_append]

theorem ofSteps_apply_congr (others : List Step)
    (hdel : ∀ n, DeletedBy others n ↔ DeletedBy steps n)
    (hins : ∀ n, insertedBy others n = insertedBy steps n) :
    (ofSteps others).apply d = (ofSteps steps).apply d := by
  apply apply_congr
  · intro n
    rw [deletes_ofSteps, deletes_ofSteps, hdel]
  · intro n
    rw [insertedAt_ofSteps, insertedAt_ofSteps, hins]

theorem splices_ofSteps : Splices steps d := by
  constructor
  case isEmpty_iff => simp only [isEmpty_iff, deletes_ofSteps, insertedAt_ofSteps]
  case insertedLines_eq => exact insertedLines_ofSteps steps
  case insertedBy_eq_nil => exact insertedBy_eq_nil steps
  case apply_of_isEmpty => exact (ofSteps steps).apply_of_isEmpty d
  case lines_apply =>
    rw [lines_apply, splice_eq_flatMap, Nat.zero_add]
    simp only [deletes_ofSteps, insertedAt_ofSteps]
  case ended_apply =>
    intro hchange
    rw [(ofSteps steps).ended_apply d hchange, decide_eq_true_iff, ← lines_apply]
    unfold TouchesEnd
    rw [deletes_ofSteps, insertedAt_ofSteps, or_assoc]
  case apply_of_perm =>
    intro others hperm hsame
    apply ofSteps_apply_congr
    · intro n
      unfold DeletedBy
      simp only [hperm.mem_iff]
    · -- the insertions at a line are all that counts there
      intro n
      rw [← insertedBy_filter others, hsame n, insertedBy_filter]
  case apply_of_repeated =>
    rintro front back st rfl hst hdel
    apply ofSteps_apply_congr
    · intro n
      rw [deletedBy_append_cons]
      exact or_iff_right_of_imp (hdel n)
    · intro n
      exact insertedBy_append_cons front back st n (st.insertedAt_eq_nil n (by simp [hst]))
  case lines_of_out_of_range =>
    rintro front back st rfl hdel hins
    rw [lines_apply, lines_apply]
    apply splice_congr
    · intro n hn
      rw [deletes_ofSteps, deletes_ofSteps, deletedBy_append_cons]
      apply or_iff_right_of_imp
      intro hst
      have := hdel n hst
      omega
    · intro n hn
      rw [insertedAt_ofSteps, insertedAt_ofSteps]
      apply insertedBy_append_cons
      apply st.insertedAt_eq_nil
      intro hst
      have := hins n hst
      omega

end

/-- Insertions at one line keep their order, and a range that is turned around deletes nothing. -/
example : (ofSteps [.insert 1 [.header ['s']], .delete 1, .insert 1 [.blank], .deleteRange 1 0,
      .delete 7]).apply ⟨[.kept ['a'], .kept ['b']], false⟩ =
    ⟨[.kept ['a'], .header ['s'], .blank], true⟩ := by
  decide

end Patch

end Stanzas
