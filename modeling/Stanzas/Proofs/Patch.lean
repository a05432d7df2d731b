import Mathlib.Data.List.Basic
import Stanzas.Patch

/-!
# Splicing

A patch is known by two things, the lines that it deletes and what it inserts in front of each line
(`isEmpty_iff`). Where it inserts at one line `k` only, the lines of the result are those of the
document that it leaves (`Patch.remaining`), parted at `k`:

    p.splice n ls = p.remaining n (ls.take (k - n)) ++ block ++ p.remaining k (ls.drop (k - n))
                                                                          (splice_of_insertedAt)
-/

namespace Stanzas

namespace Patch

/-! ## The lines that stay -/

/-- The lines that the patch does not delete, where the first one has the number `n`. -/
def remaining (p : Patch) : Nat → List Line → List Line
  | _, [] => []
  | n, l :: ls => (if p.Deletes n then [] else [l]) ++ p.remaining (n + 1) ls

variable (p : Patch)

theorem remaining_append (n : Nat) (ls ms : List Line) :
    p.remaining n (ls ++ ms) = p.remaining n ls ++ p.remaining (n + ls.length) ms := by
  induction ls generalizing n with
  | nil => rfl
  | cons l ls ih =>
    have hlen : n + (l :: ls).length = n + 1 + ls.length := Nat.add_right_comm n ls.length 1
    simp only [List.cons_append, remaining, ih, hlen, List.append_assoc]

/-- If the deleted lines are told by what they hold, their numbers do not matter. -/
theorem remaining_eq_filter (gone : Line → Prop) [DecidablePred gone] (n : Nat) (ls : List Line)
    (h : ∀ i l, ls[i]? = some l → (p.Deletes (n + i) ↔ gone l)) :
    p.remaining n ls = ls.filter fun l => ¬ gone l := by
  induction ls generalizing n with
  | nil => rfl
  | cons l ls ih =>
    have hl : p.Deletes n ↔ gone l := h 0 l rfl
    have hls := ih (n + 1) fun i k hk => by
      have := h (i + 1) k hk
      rwa [show n + (i + 1) = n + 1 + i by omega] at this
    by_cases hg : gone l
    · simp only [remaining, hls, if_pos (hl.2 hg)]
      rw [List.filter_cons_of_neg (by simpa using hg), List.nil_append]
    · simp only [remaining, hls, if_neg (mt hl.1 hg)]
      rw [List.filter_cons_of_pos (by simpa using hg), List.singleton_append]

/-- If they are told by their numbers, it does not matter what they hold. -/
theorem remaining_eq_filter_zipIdx (gone : Nat → Prop) [DecidablePred gone]
    (h : ∀ n, p.Deletes n ↔ gone n) (n : Nat) (ls : List Line) :
    p.remaining n ls = ((ls.zipIdx n).filter fun l => ¬ gone l.2).map Prod.fst := by
  induction ls generalizing n with
  | nil => rfl
  | cons l ls ih =>
    unfold remaining
    rw [List.zipIdx_cons, ih (n + 1)]
    by_cases hn : p.Deletes n
    · have hgone := (h n).1 hn
      rw [if_pos hn, List.filter_cons_of_neg (by simpa using hgone), List.nil_append]
    · have hstays := mt (h n).2 hn
      rw [if_neg hn, List.filter_cons_of_pos (by simpa using hstays), List.map_cons,
        List.singleton_append]

theorem remaining_eq_self (n : Nat) (ls : List Line)
    (h : ∀ i, i < ls.length → ¬ p.Deletes (n + i)) : p.remaining n ls = ls := by
  rw [p.remaining_eq_filter (fun _ => False) n ls]
  · simp
  · intro i l hl
    obtain ⟨hi, -⟩ := List.getElem?_eq_some_iff.1 hl
    exact iff_of_false (h i hi) id

theorem remaining_eq_nil_iff (n : Nat) (ls : List Line) :
    p.remaining n ls = [] ↔ ∀ i, i < ls.length → p.Deletes (n + i) := by
  induction ls generalizing n with
  | nil => simp [remaining]
  | cons l ls ih =>
    have hshift : ∀ i, n + (i + 1) = n + 1 + i := by
      intro i
      omega
    unfold remaining
    rw [List.append_eq_nil_iff, ih (n + 1)]
    constructor
    · rintro ⟨hl, hls⟩ i hi
      cases i with
      | zero =>
        by_contra hdel
        rw [Nat.add_zero] at hdel
        rw [if_neg hdel] at hl
        cases hl
      | succ i =>
        rw [hshift]
        exact hls i (Nat.lt_of_succ_lt_succ hi)
    · intro h
      constructor
      · exact if_pos (h 0 (Nat.succ_pos _))
      · intro i hi
        rw [← hshift]
        exact h (i + 1) (Nat.succ_lt_succ hi)

/-- The first line that stays is the first one that is not deleted. -/
theorem head?_remaining_eq_some_iff (n : Nat) (ls : List Line) (l : Line) :
    (p.remaining n ls).head? = some l ↔
      ∃ k, ls[k]? = some l ∧ ¬ p.Deletes (n + k) ∧ ∀ j, j < k → p.Deletes (n + j) := by
  induction ls generalizing n with
  | nil => simp [remaining]
  | cons m ls ih =>
    have hshift : ∀ k, n + (k + 1) = n + 1 + k := by
      intro k
      omega
    unfold remaining
    by_cases hdel : p.Deletes n
    · rw [if_pos hdel, List.nil_append, ih (n + 1)]
      constructor
      · rintro ⟨k, hk, hkeep, hgone⟩
        refine ⟨k + 1, hk, by rwa [hshift], ?_⟩
        intro j hj
        cases j with
        | zero => exact hdel
        | succ j =>
          rw [hshift]
          exact hgone j (Nat.lt_of_succ_lt_succ hj)
      · rintro ⟨k, hk, hkeep, hgone⟩
        cases k with
        | zero => exact absurd hdel hkeep
        | succ k =>
          refine ⟨k, hk, by rwa [← hshift], ?_⟩
          intro j hj
          rw [← hshift]
          exact hgone (j + 1) (Nat.succ_lt_succ hj)
    · rw [if_neg hdel]
      constructor
      · intro h
        refine ⟨0, h, hdel, ?_⟩
        intro j hj
        omega
      · rintro ⟨k, hk, -, hgone⟩
        cases k with
        | zero => exact hk
        | succ k => exact absurd (hgone 0 (Nat.succ_pos k)) hdel

/-! ## Splicing at one line -/

theorem splice_of_insertedAt_eq_nil (n : Nat) (ls : List Line)
    (h : ∀ m, n ≤ m → p.insertedAt m = []) : p.splice n ls = p.remaining n ls := by
  induction ls generalizing n with
  | nil => exact h n (Nat.le_refl n)
  | cons l ls ih =>
    have hls := ih (n + 1) fun m hm => h m (by omega)
    simp only [splice, remaining, hls, h n (Nat.le_refl n), List.nil_append]

theorem splice_of_insertedAt (k : Nat) (block : List Line) (n : Nat) (ls : List Line)
    (h : ∀ m, p.insertedAt m = if m = k then block else []) (hn : n ≤ k)
    (hk : k ≤ n + ls.length) : p.splice n ls =
      p.remaining n (ls.take (k - n)) ++ block ++ p.remaining k (ls.drop (k - n)) := by
  induction ls generalizing n with
  | nil =>
    obtain rfl : n = k := by
      rw [List.length_nil] at hk
      omega
    simp [splice, remaining, h]
  | cons l ls ih =>
    rcases Nat.eq_or_lt_of_le hn with rfl | hlt
    · have hls := p.splice_of_insertedAt_eq_nil (n + 1) ls fun m hm => by
        rw [h, if_neg (by omega)]
      simp [splice, remaining, hls, h]
    · rw [List.length_cons] at hk
      have hls := ih (n + 1) hlt (by omega)
      have hkn : k - n = k - (n + 1) + 1 := by omega
      have hins : p.insertedAt n = [] := by rw [h, if_neg (by omega)]
      simp only [splice, remaining, hls, hins, hkn, List.take_succ_cons, List.drop_succ_cons,
        List.nil_append, List.append_assoc]

/-! ## The lines of the result -/

theorem mem_splice (n : Nat) (ls : List Line) (l : Line) (hl : l ∈ p.splice n ls) :
    l ∈ ls ∨ ∃ m, l ∈ p.insertedAt m := by
  induction ls generalizing n with
  | nil => exact Or.inr ⟨n, hl⟩
  | cons k ls ih =>
    unfold splice at hl
    rcases List.mem_append.1 hl with hl | hl
    · rcases List.mem_append.1 hl with hl | hl
      · exact Or.inr ⟨n, hl⟩
      · split at hl
        · cases hl
        · rw [List.mem_singleton.1 hl]
          exact Or.inl List.mem_cons_self
    · rcases ih (n + 1) hl with hl | hl
      · exact Or.inl (List.mem_cons_of_mem k hl)
      · exact Or.inr hl

/-- Where nothing is left, every line has been deleted. -/
theorem deletes_of_splice_eq_nil (n : Nat) (ls : List Line) (h : p.splice n ls = []) (m : Nat)
    (hm : m < ls.length) : p.Deletes (n + m) := by
  induction ls generalizing n m with
  | nil => cases hm
  | cons l ls ih =>
    obtain ⟨hl, hls⟩ := List.append_eq_nil_iff.1 h
    cases m with
    | zero =>
      by_contra hdel
      rw [Nat.add_zero] at hdel
      rw [if_neg hdel] at hl
      cases (List.append_eq_nil_iff.1 hl).2
    | succ m =>
      rw [show n + (m + 1) = n + 1 + m by omega]
      exact ih (n + 1) hls m (Nat.lt_of_succ_lt_succ hm)

/-- A last line that stays, with nothing behind it, is the last line of the result. -/
theorem getLast?_splice (n : Nat) (ls : List Line) (hne : ls ≠ [])
    (hins : p.insertedAt (n + ls.length) = []) (hdel : ¬ p.Deletes (n + ls.length - 1)) :
    (p.splice n ls).getLast? = ls.getLast? := by
  induction ls generalizing n with
  | nil => exact absurd rfl hne
  | cons l ls ih =>
    have hlen : n + (l :: ls).length = n + 1 + ls.length := Nat.add_right_comm n ls.length 1
    rw [hlen] at hins hdel
    unfold splice
    cases ls with
    | nil =>
      have hdel : ¬ p.Deletes n := by simpa using hdel
      have hnil : p.splice (n + 1) [] = [] := hins
      rw [if_neg hdel, hnil, List.append_nil, List.getLast?_concat]
      rfl
    | cons k ks =>
      have hks := ih (n + 1) (List.cons_ne_nil k ks) hins hdel
      rw [List.getLast?_append, hks, List.getLast?_cons_cons]
      rw [List.getLast?_eq_some_getLast (List.cons_ne_nil k ks), Option.some_or]

theorem getLast?_splice_of_insertedAt (n : Nat) (ls : List Line)
    (hins : p.insertedAt (n + ls.length) ≠ []) :
    (p.splice n ls).getLast? = (p.insertedAt (n + ls.length)).getLast? := by
  induction ls generalizing n with
  | nil => rfl
  | cons l ls ih =>
    have hlen : n + (l :: ls).length = n + 1 + ls.length := Nat.add_right_comm n ls.length 1
    rw [hlen] at hins ⊢
    unfold splice
    rw [List.getLast?_append, ih (n + 1) hins, List.getLast?_eq_some_getLast hins, Option.some_or]

/-! ## Application -/

theorem isEmpty_iff : p.IsEmpty ↔ (∀ n, ¬ p.Deletes n) ∧ ∀ n, p.insertedAt n = [] := by
  constructor
  · rintro ⟨hdel, hins⟩
    constructor
    · rintro n ⟨r, hr, hle, hlt⟩
      have := hdel r hr
      omega
    · intro n
      unfold insertedAt
      rw [List.flatMap_eq_nil_iff]
      exact fun i hi => hins i (List.mem_filter.1 hi).1
  · rintro ⟨hdel, hins⟩
    constructor
    · intro r hr
      by_contra hlt
      exact hdel r.1 ⟨r, hr, Nat.le_refl _, by omega⟩
    · intro i hi
      have h := hins i.1
      unfold insertedAt at h
      rw [List.flatMap_eq_nil_iff] at h
      exact h i (List.mem_filter.2 ⟨hi, by simp⟩)

theorem not_deletes_empty (n : Nat) : ¬ (∅ : Patch).Deletes n :=
  (isEmpty_iff ∅ |>.1 isEmpty_empty).1 n

theorem insertedAt_empty (n : Nat) : (∅ : Patch).insertedAt n = [] :=
  (isEmpty_iff ∅ |>.1 isEmpty_empty).2 n

theorem not_isEmpty_of_deletes (n : Nat) (h : p.Deletes n) : ¬ p.IsEmpty :=
  fun hempty => (p.isEmpty_iff.1 hempty).1 n h

theorem lines_apply (d : Document) : (p.apply d).lines = p.splice 0 d.lines := by
  unfold apply
  split
  · next h =>
    obtain ⟨hdel, hins⟩ := p.isEmpty_iff.1 h
    rw [p.splice_of_insertedAt_eq_nil 0 d.lines fun m _ => hins m,
      p.remaining_eq_self 0 d.lines fun i _ => hdel _]
  · rfl

/-- Where a patch leaves the end alone, the last line is the old one. -/
theorem getLast?_lines_apply (d : Document) (h : ¬ p.TouchesEnd d.lines.length) :
    (p.apply d).lines.getLast? = d.lines.getLast? := by
  unfold TouchesEnd at h
  rw [not_or, not_ne_iff] at h
  obtain ⟨hins, hdel⟩ := h
  rw [p.lines_apply d]
  by_cases hne : d.lines = []
  · rw [hne] at hins ⊢
    exact congrArg List.getLast? hins
  · apply p.getLast?_splice 0 d.lines hne
    · rwa [Nat.zero_add]
    · rw [Nat.zero_add]
      exact fun hlast => hdel ⟨List.length_pos_iff.2 hne, hlast⟩

/-- The last line stays as it was ended, unless the patch put a line behind it or took it away. -/
theorem ended_apply (d : Document) (h : ¬ p.IsEmpty) : (p.apply d).ended =
    decide (d.ended = true ∨ p.TouchesEnd d.lines.length ∨ p.splice 0 d.lines = []) := by
  unfold apply
  rw [if_neg h]

/-- A patch that stays within the document leaves no line at all only by taking the last one. -/
theorem ended_apply_iff (d : Document) (hdel : ∀ n, p.Deletes n → n < d.lines.length)
    (hins : ∀ n, p.insertedAt n ≠ [] → n ≤ d.lines.length) :
    (p.apply d).ended = true ↔ d.ended = true ∨ p.TouchesEnd d.lines.length := by
  by_cases hempty : p.IsEmpty
  · obtain ⟨hkept, hnone⟩ := p.isEmpty_iff.1 hempty
    have hnot : ¬ p.TouchesEnd d.lines.length := by
      rintro (h | ⟨-, h⟩)
      · exact h (hnone _)
      · exact hkept _ h
    rw [apply, if_pos hempty, or_iff_left hnot]
  · rw [p.ended_apply d hempty, decide_eq_true_eq]
    apply or_congr_right
    apply or_iff_left_of_imp
    intro hnil
    rcases Nat.eq_zero_or_pos d.lines.length with hzero | hpos
    · -- without a line nothing can be taken, and what is inserted is left
      exfalso
      apply hempty
      rw [p.isEmpty_iff]
      constructor
      · intro n hn
        have := hdel n hn
        omega
      · intro n
        by_contra hn
        obtain rfl : n = 0 := by
          have := hins n hn
          omega
        rw [List.length_eq_zero_iff.1 hzero] at hnil
        exact hn hnil
    · have hlast := p.deletes_of_splice_eq_nil 0 d.lines hnil (d.lines.length - 1) (by omega)
      rw [Nat.zero_add] at hlast
      exact Or.inr ⟨hpos, hlast⟩

theorem apply_of_isEmpty (d : Document) (h : p.IsEmpty) : p.apply d = d := if_pos h

/-- A document that loses all its lines keeps one newline. -/
theorem apply_eq_of_lines_eq_nil (d : Document) (hne : d.lines ≠ [])
    (hnil : (p.apply d).lines = []) : p.apply d = ⟨[], true⟩ := by
  have hchange : ¬ p.IsEmpty := by
    intro h
    rw [p.apply_of_isEmpty d h] at hnil
    exact hne hnil
  have hended := p.ended_apply d hchange
  rw [← p.lines_apply d, decide_eq_true (Or.inr (Or.inr hnil))] at hended
  rw [← hnil, ← hended]

end Patch

end Stanzas
