import Mathlib.Data.List.Basic
import Stanzas.Proofs.Patch

/-!
# Where the lines of a patched document stand

What a patch inserts in front of line `n` has the numbers from `p.blockLine n` on, and line `n` has
the number `p.newLine n` behind it, unless it is deleted:

    (p.splice 0 ls)[p.blockLine n + r]? = (p.insertedAt n)[r]?          (getElem?_splice_blockLine)
    (p.splice 0 ls)[p.newLine n]? = ls[n]?                                (getElem?_splice_newLine)

The result has no other lines (`cases_of_lt_newLine`), and those that stay keep their order
(`newLine_lt_newLine`).
-/

namespace Stanzas

namespace Patch

/-- The number of the first line that the patch inserts in front of line `n`. -/
def blockLine (p : Patch) : Nat → Nat
  | 0 => 0
  | n + 1 => p.blockLine n + (p.insertedAt n).length + if p.Deletes n then 0 else 1

/-- The number of line `n` in the result, if the patch leaves it. -/
def newLine (p : Patch) (n : Nat) : Nat := p.blockLine n + (p.insertedAt n).length

variable (p : Patch)

/-! ## Order -/

theorem blockLine_succ (n : Nat) :
    p.blockLine (n + 1) = p.newLine n + if p.Deletes n then 0 else 1 := rfl

theorem blockLine_le_newLine (n : Nat) : p.blockLine n ≤ p.newLine n := Nat.le_add_right _ _

theorem newLine_le_blockLine (m n : Nat) (h : m < n) : p.newLine m ≤ p.blockLine n := by
  induction n with
  | zero => omega
  | succ n ih =>
    rw [blockLine_succ]
    rcases Nat.lt_succ_iff_lt_or_eq.1 h with h | rfl
    · have := ih h
      have := p.blockLine_le_newLine n
      omega
    · omega

theorem newLine_lt_blockLine (m n : Nat) (h : m < n) (hm : ¬ p.Deletes m) :
    p.newLine m < p.blockLine n := by
  have hsucc := p.blockLine_succ m
  rw [if_neg hm] at hsucc
  by_cases heq : n = m + 1
  · rw [heq]
    omega
  · have := p.newLine_le_blockLine (m + 1) n (by omega)
    have := p.blockLine_le_newLine (m + 1)
    omega

/-- Lines that stay keep their order. -/
theorem newLine_lt_newLine (m n : Nat) (h : m < n) (hm : ¬ p.Deletes m) :
    p.newLine m < p.newLine n :=
  Nat.lt_of_lt_of_le (p.newLine_lt_blockLine m n h hm) (p.blockLine_le_newLine n)

theorem newLine_le_newLine (m n : Nat) (h : m ≤ n) : p.newLine m ≤ p.newLine n := by
  rcases Nat.eq_or_lt_of_le h with rfl | h
  · exact Nat.le_refl _
  · exact Nat.le_trans (p.newLine_le_blockLine m n h) (p.blockLine_le_newLine n)

/-- A number in front of a line is that of an inserted line or of an earlier line that stays. -/
theorem cases_of_lt_newLine (j n : Nat) (h : j < p.newLine n) :
    (∃ k, k ≤ n ∧ ∃ r, r < (p.insertedAt k).length ∧ j = p.blockLine k + r) ∨
      ∃ m, m < n ∧ ¬ p.Deletes m ∧ j = p.newLine m := by
  induction n with
  | zero =>
    unfold newLine at h
    exact Or.inl ⟨0, Nat.le_refl 0, j, by rwa [blockLine, Nat.zero_add] at h, (Nat.zero_add j).symm⟩
  | succ n ih =>
    by_cases hblock : p.blockLine (n + 1) ≤ j
    · unfold newLine at h
      exact Or.inl ⟨n + 1, Nat.le_refl _, j - p.blockLine (n + 1), by omega, by omega⟩
    · rw [blockLine_succ] at hblock
      by_cases hlt : j < p.newLine n
      · rcases ih hlt with ⟨k, hk, r, hr⟩ | ⟨m, hm, hstays⟩
        · exact Or.inl ⟨k, by omega, r, hr⟩
        · exact Or.inr ⟨m, by omega, hstays⟩
      · by_cases hdel : p.Deletes n
        · rw [if_pos hdel] at hblock
          omega
        · rw [if_neg hdel] at hblock
          exact Or.inr ⟨n, Nat.lt_succ_self n, hdel, by omega⟩

/-! ## Lines -/

/-- What is inserted in front of a line parts the result, and the line comes next if it stays. -/
theorem exists_splice_eq_append (n : Nat) (ls : List Line) (k : Nat) (hk : k ≤ ls.length) :
    ∃ front back, p.splice n ls = front ++ (p.insertedAt (n + k) ++ back) ∧
      p.blockLine n + front.length = p.blockLine (n + k) ∧
      ∀ l, ls[k]? = some l → ¬ p.Deletes (n + k) → back.head? = some l := by
  induction ls generalizing n k with
  | nil =>
    obtain rfl : k = 0 := Nat.le_zero.1 hk
    exact ⟨[], [], by simp [splice], rfl, by simp⟩
  | cons l ls ih =>
    cases k with
    | zero =>
      refine ⟨[], _, (List.append_assoc _ _ _).trans rfl, rfl, ?_⟩
      intro m hm hdel
      rw [if_neg (show ¬ p.Deletes n from hdel)]
      exact hm
    | succ k =>
      obtain ⟨front, back, hsplice, hlen, hback⟩ := ih (n + 1) k (Nat.le_of_succ_le_succ hk)
      have hshift : n + (k + 1) = n + 1 + k := by omega
      refine ⟨p.insertedAt n ++ (if p.Deletes n then [] else [l]) ++ front, back, ?_, ?_, ?_⟩
      · rw [splice, hsplice, hshift]
        simp only [List.append_assoc]
      · rw [hshift, ← hlen, blockLine, List.length_append, List.length_append]
        split <;> simp <;> omega
      · rw [hshift]
        exact hback

section
variable (ls : List Line) (n : Nat)

theorem getElem?_splice_blockLine (hn : n ≤ ls.length) (r : Nat)
    (hr : r < (p.insertedAt n).length) :
    (p.splice 0 ls)[p.blockLine n + r]? = (p.insertedAt n)[r]? := by
  obtain ⟨front, back, hsplice, hlen, -⟩ := p.exists_splice_eq_append 0 ls n hn
  simp only [blockLine, Nat.zero_add] at hsplice hlen
  rw [hsplice, List.getElem?_append_right (by omega), hlen, Nat.add_sub_cancel_left,
    List.getElem?_append_left hr]

theorem getElem?_splice_newLine (l : Line) (hl : ls[n]? = some l) (hdel : ¬ p.Deletes n) :
    (p.splice 0 ls)[p.newLine n]? = some l := by
  have hn := (List.getElem?_eq_some_iff.1 hl).1
  obtain ⟨front, back, hsplice, hlen, hback⟩ := p.exists_splice_eq_append 0 ls n (Nat.le_of_lt hn)
  simp only [blockLine, Nat.zero_add] at hsplice hlen hback
  unfold newLine
  rw [hsplice, List.getElem?_append_right (by omega), hlen, Nat.add_sub_cancel_left,
    List.getElem?_append_right (Nat.le_refl _), Nat.sub_self, ← List.head?_eq_getElem?]
  exact hback l hl hdel

end

/-! ## Insertion at one line -/

theorem length_remaining_of_insertedAt_eq_nil (n : Nat) (ls : List Line)
    (h : ∀ m, n ≤ m → m < n + ls.length → p.insertedAt m = []) :
    p.blockLine n + (p.remaining n ls).length = p.blockLine (n + ls.length) := by
  induction ls generalizing n with
  | nil => rfl
  | cons l ls ih =>
    rw [List.length_cons] at h
    have hls := ih (n + 1) fun m hle hlt => h m (by omega) (by omega)
    have hlen : n + (l :: ls).length = n + 1 + ls.length := Nat.add_right_comm n ls.length 1
    rw [hlen, ← hls, blockLine, h n (Nat.le_refl n) (by omega), remaining, List.length_append]
    by_cases hdel : p.Deletes n
    · simp [hdel]
    · simp [hdel]
      omega

section
variable (k : Nat) (block : List Line) (hdel : ∀ n, ¬ p.Deletes n)
  (hins : ∀ n, p.insertedAt n = if n = k then block else [])

include hdel hins

theorem blockLine_of_insertedAt (n : Nat) :
    p.blockLine n = if n ≤ k then n else n + block.length := by
  induction n with
  | zero => simp [blockLine]
  | succ n ih =>
    rw [blockLine, ih, hins, if_neg (hdel n)]
    rcases Nat.lt_trichotomy n k with hlt | rfl | hgt
    · rw [if_pos (by omega), if_neg (by omega), if_pos (by omega)]
      rfl
    · rw [if_pos (Nat.le_refl n), if_pos rfl, if_neg (by omega)]
      omega
    · rw [if_neg (by omega), if_neg (by omega), if_neg (by omega), List.length_nil]
      omega

/-- Without deletions only the lines behind the block move. -/
theorem newLine_of_insertedAt (n : Nat) :
    p.newLine n = if n < k then n else n + block.length := by
  unfold newLine
  rw [p.blockLine_of_insertedAt k block hdel hins, hins]
  rcases Nat.lt_trichotomy n k with hlt | rfl | hgt
  · rw [if_pos (by omega), if_neg (by omega), if_pos hlt]
    rfl
  · rw [if_pos (Nat.le_refl n), if_pos rfl, if_neg (by omega)]
  · rw [if_neg (by omega), if_neg (by omega), if_neg (by omega)]
    rfl

end

end Patch

end Stanzas
