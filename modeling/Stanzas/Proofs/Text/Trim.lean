import Mathlib.Data.List.Basic
import Stanzas.Text.Blank

/-!
# What trimming keeps

`trim` forgets the blanks around a text and nothing else, so a text is trimmed already if it has a
blank at neither end.

    trim (a ++ t ++ b) = trim t                          for blanks a, b            (trim_append)
    trim t = t ↔ no blank starts t and no blank ends t                      (trim_eq_self_iff)
-/

namespace Stanzas

/-! ## One end -/

theorem trimStart_append (a t : Text) (ha : ∀ c ∈ a, isBlank c = true) :
    trimStart (a ++ t) = trimStart t := by
  induction a with
  | nil => rfl
  | cons c a ih =>
    have hc : isBlank c = true := ha c List.mem_cons_self
    have ht := ih fun d hd => ha d (List.mem_cons_of_mem _ hd)
    unfold trimStart at ht ⊢
    rw [List.cons_append, List.dropWhile_cons_of_pos hc, ht]

theorem trimEnd_append (t b : Text) (hb : ∀ c ∈ b, isBlank c = true) :
    trimEnd (t ++ b) = trimEnd t := by
  have h := trimStart_append b.reverse t.reverse fun c hc => hb c (List.mem_reverse.1 hc)
  unfold trimStart at h
  unfold trimEnd
  rw [List.reverse_append, h]

theorem trimStart_eq_self_iff (t : Text) : trimStart t = t ↔ ∀ c ∈ t.head?, isBlank c = false := by
  cases t with
  | nil => simp [trimStart]
  | cons c t =>
    unfold trimStart
    by_cases hc : isBlank c = true
    · rw [List.dropWhile_cons_of_pos hc]
      constructor
      · intro h
        have hlen := congrArg List.length h
        have := (List.dropWhile_suffix isBlank (l := t)).length_le
        simp only [List.length_cons] at hlen
        omega
      · intro h
        simp [h c rfl] at hc
    · rw [List.dropWhile_cons_of_neg hc]
      simpa using hc

theorem trimEnd_eq_reverse (t : Text) : trimEnd t = (trimStart t.reverse).reverse := rfl

theorem trimEnd_eq_self_iff (t : Text) : trimEnd t = t ↔ ∀ c ∈ t.getLast?, isBlank c = false := by
  rw [trimEnd_eq_reverse, ← List.head?_reverse, ← trimStart_eq_self_iff]
  constructor
  · intro h
    rw [← List.reverse_reverse (trimStart t.reverse), h]
  · intro h
    rw [h, List.reverse_reverse]

theorem head?_trimStart (t : Text) : ∀ c ∈ (trimStart t).head?, isBlank c = false := by
  intro c hc
  have h := List.head?_dropWhile_not isBlank t
  unfold trimStart at hc
  rw [Option.mem_def] at hc
  rw [hc] at h
  exact h

theorem getLast?_trimEnd (t : Text) : ∀ c ∈ (trimEnd t).getLast?, isBlank c = false := by
  rw [trimEnd_eq_reverse, List.getLast?_reverse]
  exact head?_trimStart _

/-- Blanks are taken off the end of the last part alone if it holds anything else. -/
theorem trimEnd_append_of_ne_nil (s t : Text) (ht : trimEnd t ≠ []) :
    trimEnd (s ++ t) = s ++ trimEnd t := by
  obtain ⟨b, hb, hs⟩ := exists_trimEnd t
  have hlast := getLast?_trimEnd t
  calc trimEnd (s ++ t) = trimEnd (s ++ trimEnd t ++ b) := by rw [List.append_assoc, ← hs]
    _ = trimEnd (s ++ trimEnd t) := trimEnd_append _ b hb
    _ = s ++ trimEnd t := by
      rw [trimEnd_eq_self_iff, List.getLast?_append_of_ne_nil _ ht]
      exact hlast

theorem trimEnd_cons (c : Char) (t : Text) (hc : isBlank c = false) :
    trimEnd (c :: t) = c :: trimEnd t := by
  by_cases ht : trimEnd t = []
  · obtain ⟨b, hb, hs⟩ := exists_trimEnd t
    rw [ht, List.nil_append] at hs
    have hself : trimEnd [c] = [c] := by
      rw [trimEnd_eq_self_iff]
      rintro _ ⟨⟩
      exact hc
    rw [ht, hs]
    exact (trimEnd_append [c] b hb).trans hself
  · exact trimEnd_append_of_ne_nil [c] t ht

/-! ## Both ends -/

theorem trim_append (a t b : Text) (ha : ∀ c ∈ a, isBlank c = true)
    (hb : ∀ c ∈ b, isBlank c = true) : trim (a ++ t ++ b) = trim t := by
  unfold trim
  rw [List.append_assoc, trimStart_append a _ ha]
  by_cases ht : ∀ c ∈ t, isBlank c = true
  · have h := trimStart_append (t ++ b) [] fun c hc =>
      (List.mem_append.1 hc).elim (ht c) (hb c)
    have h' := trimStart_append t [] ht
    rw [List.append_nil] at h h'
    rw [h, h']
  · -- some character of `t` stops the trimming at the front, and `b` is left to the other end
    have hne : trimStart t ≠ [] := by
      intro h
      obtain ⟨a', ha', he⟩ := exists_trimStart t
      rw [h, List.append_nil] at he
      exact ht (he ▸ ha')
    have hb' : trimStart (t ++ b) = trimStart t ++ b := by
      obtain ⟨a', ha', he⟩ := exists_trimStart t
      conv => lhs; rw [he]
      rw [List.append_assoc, trimStart_append a' _ ha', trimStart_eq_self_iff,
        List.head?_append_of_ne_nil _ hne]
      exact head?_trimStart t
    rw [hb', trimEnd_append _ b hb]

theorem trim_blanks_append (a t : Text) (ha : ∀ c ∈ a, isBlank c = true) :
    trim (a ++ t) = trim t := by
  have h := trim_append a t [] ha (by simp)
  rwa [List.append_nil] at h

theorem trim_append_blanks (t b : Text) (hb : ∀ c ∈ b, isBlank c = true) :
    trim (t ++ b) = trim t :=
  trim_append [] t b (by simp) hb

theorem trim_eq_self_iff (t : Text) :
    trim t = t ↔ (∀ c ∈ t.head?, isBlank c = false) ∧ ∀ c ∈ t.getLast?, isBlank c = false := by
  rw [← trimStart_eq_self_iff, ← trimEnd_eq_self_iff]
  constructor
  · intro h
    obtain ⟨a, -, ha⟩ := exists_trimStart t
    obtain ⟨b, -, hb⟩ := exists_trimEnd (trimStart t)
    have hlen : a.length = 0 := by
      have h1 := congrArg List.length ha
      have h2 := congrArg List.length hb
      have h3 := congrArg List.length h
      unfold trim at h3
      simp only [List.length_append] at h1 h2
      omega
    have hs : trimStart t = t := by
      rw [List.eq_nil_of_length_eq_zero hlen, List.nil_append] at ha
      exact ha.symm
    refine ⟨hs, ?_⟩
    unfold trim at h
    rwa [hs] at h
  · rintro ⟨hs, he⟩
    unfold trim
    rw [hs, he]

theorem trim_trim (t : Text) : trim (trim t) = trim t := by
  obtain ⟨a, b, ha, hb, h⟩ := exists_trim t
  rw [← trim_append a (trim t) b ha hb, ← h]

theorem trim_trimStart (t : Text) : trim (trimStart t) = trim t := by
  obtain ⟨a, ha, h⟩ := exists_trimStart t
  rw [← trim_blanks_append a (trimStart t) ha, ← h]

theorem trim_trimEnd (t : Text) : trim (trimEnd t) = trim t := by
  obtain ⟨b, hb, h⟩ := exists_trimEnd t
  rw [← trim_append_blanks (trimEnd t) b hb, ← h]

/-- The first character that is no blank is the first one of the trimmed text. -/
theorem head?_trim (t : Text) : (trim t).head? = (trimStart t).head? := by
  have hfirst := head?_trimStart t
  unfold trim
  cases hs : trimStart t with
  | nil => rfl
  | cons c s =>
    rw [hs] at hfirst
    rw [trimEnd_cons c s (hfirst c rfl)]
    rfl

/-- A text that starts with no blank has blanks at its end only. -/
theorem exists_eq_trim_append (t : Text) (ht : ∀ c ∈ t.head?, isBlank c = false) :
    ∃ b, (∀ c ∈ b, isBlank c = true) ∧ t = trim t ++ b := by
  have hs := (trimStart_eq_self_iff t).2 ht
  unfold trim
  rw [hs]
  exact exists_trimEnd t

/-- A text that ends with no blank has blanks at its front only. -/
theorem exists_eq_append_trim (t : Text) (ht : ∀ c ∈ t.getLast?, isBlank c = false) :
    ∃ a, (∀ c ∈ a, isBlank c = true) ∧ t = a ++ trim t := by
  obtain ⟨a, ha, hs⟩ := exists_trimStart t
  refine ⟨a, ha, ?_⟩
  have he : trimEnd (trimStart t) = trimStart t := by
    rw [trimEnd_eq_self_iff]
    intro c hc
    refine ht c ?_
    rw [hs, List.getLast?_append, Option.mem_def.1 hc, Option.some_or]
    rfl
  unfold trim
  rwa [he]

end Stanzas
