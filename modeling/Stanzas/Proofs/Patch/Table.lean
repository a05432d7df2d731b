import Mathlib.Algebra.BigOperators.Group.Finset.Basic
import Stanzas.Proofs.Patch.Steps

/-!
# Patches as tables

A patch may be kept as a set of the lines to delete and a table of what to insert where, which is
used up as the lines of the document are gone through (`Table.round`). A line is in the table only
if something is inserted in front of it, so nothing is in the table of a patch that does nothing.

    (Table.ofSteps steps).apply d = (ofSteps steps).apply d                            (apply_table)

What a table tells (`Table.Tells`) is kept up by each step, and it is all that the rounds ask for.
-/

namespace Stanzas

namespace Patch

/-- The lines to delete, and the lines to insert by the line that they go in front of. -/
structure Table where
  deletions : Std.TreeSet Nat := ∅
  insertions : Std.TreeMap Nat (List Line) := ∅

namespace Table

instance : EmptyCollection Table := ⟨{}⟩

/-- The table with one more step. A step that inserts no lines leaves no trace. -/
def step (t : Table) : Step → Table
  | .delete n => { t with deletions := t.deletions.insert n }
  | .deleteRange start stop =>
    { t with deletions := t.deletions.insertMany (List.range' start (stop - start)) }
  | .insert n ls =>
    if ls = [] then t
    else { t with insertions := t.insertions.insert n (t.insertions.getD n [] ++ ls) }

/-- The table that some steps make. -/
def ofSteps (steps : List Step) : Table := steps.foldl step ∅

/-- Whether there is nothing in the table. -/
def isEmpty (t : Table) : Bool := t.deletions.isEmpty && t.insertions.isEmpty

/-- How many lines are to be inserted. -/
def insertedLines (t : Table) : Nat := (t.insertions.toList.flatMap Prod.snd).length

/-- One line of the document: what goes in front of it is taken out of the table. -/
def round (deletions : Std.TreeSet Nat) (state : Std.TreeMap Nat (List Line) × List Line)
    (l : Line × Nat) : Std.TreeMap Nat (List Line) × List Line :=
  let lines := state.2 ++ state.1.getD l.2 []
  (state.1.erase l.2, if l.2 ∈ deletions then lines else lines ++ [l.1])

/-- The document with the table put into effect. -/
def apply (t : Table) (d : Document) : Document :=
  if t.isEmpty then d
  else
    let n := d.lines.length
    let touchesEnd := n ∈ t.insertions ∨ 0 < n ∧ n - 1 ∈ t.deletions
    let state := d.lines.zipIdx.foldl (round t.deletions) (t.insertions, [])
    let lines := state.2 ++ state.1.getD n []
    ⟨lines, d.ended ∨ touchesEnd ∨ lines = []⟩

/-- A table that tells which lines a patch deletes, and what it inserts where. -/
structure Tells (t : Table) (p : Patch) : Prop where
  mem_deletions : ∀ n, n ∈ t.deletions ↔ p.Deletes n
  getD_insertions : ∀ n, t.insertions.getD n [] = p.insertedAt n
  mem_insertions : ∀ n, n ∈ t.insertions ↔ p.insertedAt n ≠ []

namespace Tells

/-! ## The steps -/

theorem empty : (∅ : Table).Tells ∅ := by
  constructor
  case mem_deletions =>
    intro n
    exact iff_of_false Std.TreeSet.not_mem_emptyc (not_deletes_empty n)
  case getD_insertions =>
    intro n
    exact Std.TreeMap.getD_emptyc
  case mem_insertions =>
    intro n
    exact iff_of_false Std.TreeMap.not_mem_emptyc (not_not_intro (insertedAt_empty n))

variable {t : Table} {p : Patch}

theorem delete (h : t.Tells p) (m : Nat) : (t.step (.delete m)).Tells (p.delete m) := by
  refine ⟨?_, h.getD_insertions, h.mem_insertions⟩
  intro n
  have hm : n ∈ t.deletions.insert m ↔ compare m n = .eq ∨ n ∈ t.deletions :=
    Std.TreeSet.mem_insert
  rw [Nat.compare_eq_eq, h.mem_deletions, or_comm, eq_comm] at hm
  exact hm.trans deletes_delete.symm

theorem deleteRange (h : t.Tells p) (start stop : Nat) :
    (t.step (.deleteRange start stop)).Tells (p.deleteRange start stop) := by
  refine ⟨?_, h.getD_insertions, h.mem_insertions⟩
  intro n
  have hn : n ∈ t.deletions.insertMany (List.range' start (stop - start)) ↔
      n ∈ t.deletions ∨ (List.range' start (stop - start)).contains n = true :=
    Std.TreeSet.mem_insertMany_list
  have hrange : n ∈ List.range' start (stop - start) ↔ start ≤ n ∧ n < stop := by
    rw [List.mem_range'_1]
    omega
  rw [h.mem_deletions, List.contains_iff_mem, hrange] at hn
  exact hn.trans deletes_deleteRange.symm

theorem insert (h : t.Tells p) (m : Nat) (ls : List Line) :
    (t.step (.insert m ls)).Tells (p.insert m ls) := by
  have hins : ∀ n, (p.insert m ls).insertedAt n = p.insertedAt n ++ if m = n then ls else [] :=
    fun n => insertedAt_insert
  by_cases hls : ls = []
  · have hstep : t.step (.insert m ls) = t := if_pos hls
    have hsame : ∀ n, p.insertedAt n = (p.insert m ls).insertedAt n := by
      intro n
      rw [hins, hls, ite_self, List.append_nil]
    rw [hstep]
    constructor
    case mem_deletions => exact h.mem_deletions
    case getD_insertions => exact fun n => (h.getD_insertions n).trans (hsame n)
    case mem_insertions => exact fun n => (h.mem_insertions n).trans (by rw [hsame n])
  · have hstep : t.step (.insert m ls) = { t with
        insertions := t.insertions.insert m (t.insertions.getD m [] ++ ls) } := if_neg hls
    rw [hstep]
    constructor
    case mem_deletions => exact h.mem_deletions
    case getD_insertions =>
      intro n
      show Std.TreeMap.getD _ n [] = (p.insert m ls).insertedAt n
      rw [Std.TreeMap.getD_insert, hins]
      by_cases hmn : m = n
      · rw [if_pos (Nat.compare_eq_eq.2 hmn), if_pos hmn, h.getD_insertions, hmn]
      · rw [if_neg (mt Nat.compare_eq_eq.1 hmn), if_neg hmn, h.getD_insertions, List.append_nil]
    case mem_insertions =>
      intro n
      show n ∈ Std.TreeMap.insert _ m _ ↔ (p.insert m ls).insertedAt n ≠ []
      rw [Std.TreeMap.mem_insert, Nat.compare_eq_eq, h.mem_insertions, hins]
      by_cases hmn : m = n
      · simp [hmn, hls]
      · simp [hmn]

theorem step (h : t.Tells p) (st : Step) : (t.step st).Tells (p.step st) := by
  cases st with
  | delete m => exact h.delete m
  | deleteRange start stop => exact h.deleteRange start stop
  | insert m ls => exact h.insert m ls

theorem ofSteps (steps : List Step) : (Table.ofSteps steps).Tells (Patch.ofSteps steps) := by
  suffices h : ∀ (t : Table) (p : Patch), t.Tells p → (steps.foldl Table.step t).Tells
      (steps.foldl Patch.step p) from h ∅ ∅ empty
  induction steps with
  | nil => exact fun t p h => h
  | cons st steps ih => exact fun t p h => ih _ _ (h.step st)

/-! ## The result -/

theorem isEmpty_iff (h : t.Tells p) : t.isEmpty = true ↔ p.IsEmpty := by
  unfold isEmpty
  rw [Bool.and_eq_true, Std.TreeSet.isEmpty_iff_forall_not_mem,
    Std.TreeMap.isEmpty_iff_forall_not_mem, p.isEmpty_iff]
  simp only [h.mem_deletions, h.mem_insertions, not_not]

/-- The rounds make the lines of the result, if the table still has what goes in front of the lines
that are to come. -/
theorem foldl_round (h : t.Tells p) (n : Nat) (ls : List Line)
    (m : Std.TreeMap Nat (List Line)) (out : List Line)
    (hm : ∀ k, n ≤ k → m.getD k [] = p.insertedAt k) :
    ((ls.zipIdx n).foldl (round t.deletions) (m, out)).2 ++
        ((ls.zipIdx n).foldl (round t.deletions) (m, out)).1.getD (n + ls.length) [] =
      out ++ p.splice n ls := by
  induction ls generalizing n m out with
  | nil => exact congrArg (out ++ ·) (hm n (Nat.le_refl n))
  | cons l ls ih =>
    have hlen : n + (l :: ls).length = n + 1 + ls.length := Nat.add_right_comm n ls.length 1
    rw [hlen, List.zipIdx_cons, List.foldl_cons]
    have hrest : ∀ k, n + 1 ≤ k → (m.erase n).getD k [] = p.insertedAt k := by
      intro k hk
      rw [Std.TreeMap.getD_erase, if_neg (by simp; omega)]
      exact hm k (by omega)
    have hround : round t.deletions (m, out) (l, n) =
        (m.erase n, out ++ (p.insertedAt n ++ if p.Deletes n then [] else [l])) := by
      unfold round
      simp only [hm n (Nat.le_refl n), h.mem_deletions]
      by_cases hdel : p.Deletes n
      · rw [if_pos hdel, if_pos hdel, List.append_nil]
      · rw [if_neg hdel, if_neg hdel, List.append_assoc]
    rw [hround, ih (n + 1) _ _ hrest, splice, List.append_assoc]

theorem apply_eq (h : t.Tells p) (d : Document) : t.apply d = p.apply d := by
  have hlines := h.foldl_round 0 d.lines t.insertions [] fun k _ => h.getD_insertions k
  rw [Nat.zero_add, List.nil_append] at hlines
  have hend : (d.lines.length ∈ t.insertions ∨
      0 < d.lines.length ∧ d.lines.length - 1 ∈ t.deletions) ↔ p.TouchesEnd d.lines.length := by
    unfold TouchesEnd
    rw [h.mem_insertions, h.mem_deletions]
  unfold Table.apply Patch.apply
  simp only [hlines, hend, h.isEmpty_iff]

end Tells

/-- Lines that nothing goes in front of add nothing to the sum. -/
theorem insertedLines_eq_sum (t : Table) (K : Finset Nat) (hK : ∀ n, n ∈ t.insertions → n ∈ K) :
    t.insertedLines = ∑ n ∈ K, (t.insertions.getD n []).length := by
  let len := fun n => (t.insertions.getD n []).length
  have hkeys : t.insertions.toList.map (·.2.length) = t.insertions.keys.map len := by
    rw [← Std.TreeMap.map_fst_toList_eq_keys, List.map_map]
    apply List.map_congr_left
    rintro ⟨n, ls⟩ hn
    have hget := Std.TreeMap.mem_toList_iff_getElem?_eq_some.1 hn
    show ls.length = (t.insertions.getD n []).length
    rw [Std.TreeMap.getD_eq_getD_getElem?, hget, Option.getD_some]
  have hnodup : t.insertions.keys.Nodup := Std.TreeMap.nodup_keys
  have hsub : t.insertions.keys.toFinset ⊆ K := by
    intro n hn
    exact hK n (Std.TreeMap.mem_keys.1 (List.mem_toFinset.1 hn))
  unfold insertedLines
  rw [List.length_flatMap, hkeys, ← List.sum_toFinset len hnodup]
  apply Finset.sum_subset hsub
  intro n _ hn
  have hnone : n ∉ t.insertions := fun h => hn (List.mem_toFinset.2 (Std.TreeMap.mem_keys.2 h))
  show (t.insertions.getD n []).length = 0
  rw [Std.TreeMap.getD_eq_fallback hnone, List.length_nil]

end Table

section
variable (steps : List Step) (d : Document)

theorem apply_table : (Table.ofSteps steps).apply d = (ofSteps steps).apply d :=
  (Table.Tells.ofSteps steps).apply_eq d

theorem isEmpty_table : (Table.ofSteps steps).isEmpty = true ↔ (ofSteps steps).IsEmpty :=
  (Table.Tells.ofSteps steps).isEmpty_iff

theorem insertedLines_table :
    (Table.ofSteps steps).insertedLines = (ofSteps steps).insertedLines := by
  have h := Table.Tells.ofSteps steps
  have hK : ∀ n, n ∈ (Table.ofSteps steps).insertions → n ∈ insertLines steps := by
    intro n hn
    by_contra hnone
    apply (h.mem_insertions n).1 hn
    rw [insertedAt_ofSteps, insertedBy_eq_nil steps n hnone]
  rw [Table.insertedLines_eq_sum _ _ hK, insertedLines_ofSteps]
  simp only [h.getD_insertions, insertedAt_ofSteps]

end

end Patch

end Stanzas
