import Mathlib.Data.List.Basic
import Stanzas.Text.Lines

/-!
# The lines that a text can have

Cutting and joining undo each other on the lines that hold no newline, where the last one is empty
only if a newline ends it (`AreLines`).

    cutLines t = (ls, ended) ↔ AreLines ls ended ∧ joinLines ls ended = t          (cutLines_eq_iff)

The newlines of a text tell how many lines it has, and its last character whether the last one is
ended (`AreLines.length_eq`, `AreLines.getLast?_joinLines_eq_newline_iff`).
-/

namespace Stanzas

/-- The lines of some text, and whether a newline ends the last one. -/
structure AreLines (ls : List Text) (ended : Bool) : Prop where
  newline_notMem : ∀ l ∈ ls, '\n' ∉ l
  ne_nil : ended = true → ls ≠ []
  getLast?_ne : ended = false → ls.getLast? ≠ some []

/-! ## Cutting -/

/-- No piece holds the character that a text is cut at. -/
theorem notMem_of_mem_splitOn (sep : Char) (t : Text) : ∀ l ∈ t.splitOn sep, sep ∉ l := by
  induction t with
  | nil => simp
  | cons c t ih =>
    obtain ⟨p, ps, hp⟩ := List.exists_cons_of_ne_nil (List.splitOn_ne_nil sep t)
    rw [hp] at ih
    have hps : ∀ l ∈ ps, sep ∉ l := fun l hl => ih l (List.mem_cons_of_mem _ hl)
    rw [List.splitOn_cons_eq_if_modifyHead, hp]
    split
    · intro l hl
      rcases List.mem_cons.1 hl with rfl | hl
      · simp
      · exact ih l hl
    · next hc =>
      intro l hl
      rcases List.mem_cons.1 hl with rfl | hl
      · intro hm
        rcases List.mem_cons.1 hm with rfl | hm
        · exact hc (by simp)
        · exact ih p List.mem_cons_self hm
      · exact hps l hl

/-- What is put behind a text comes to its last piece. -/
theorem exists_splitOn_append (sep : Char) (t : Text) : ∃ init last,
    (∀ s, sep ∉ s → (t ++ s).splitOn sep = init ++ [last ++ s]) ∧
      (last = [] → t = [] ∨ t.getLast? = some sep) := by
  by_cases hsep : sep ∈ t.reverse
  · obtain ⟨last, init, ht, hlast⟩ := List.eq_append_cons_of_mem hsep
    rw [List.reverse_eq_iff, List.reverse_append, List.reverse_cons, List.append_assoc] at ht
    refine ⟨init.reverse.splitOn sep, last.reverse, fun s hs => ?_, fun hnil => Or.inr ?_⟩
    · have hrest : sep ∉ last.reverse ++ s := by simp [hlast, hs]
      rw [ht, List.append_assoc, List.append_assoc, List.singleton_append,
        List.splitOn_append_cons_self, List.splitOn_eq_singleton hrest]
    · rw [ht, hnil, List.append_nil, List.getLast?_concat]
  · rw [List.mem_reverse] at hsep
    refine ⟨[], t, fun s hs => ?_, Or.inl⟩
    exact List.splitOn_eq_singleton (by simp [hsep, hs])

theorem areLines_cutLines (t : Text) : AreLines (cutLines t).1 (cutLines t).2 := by
  have hmem := notMem_of_mem_splitOn '\n' t
  have hne := List.splitOn_ne_nil '\n' t
  unfold cutLines
  simp only
  generalize t.splitOn '\n' = pieces at hmem hne
  split
  · next hlast =>
    obtain ⟨ls, rfl⟩ := List.getLast?_eq_some_iff.1 hlast
    rw [List.dropLast_concat]
    constructor
    · exact fun l hl => hmem l (List.mem_append_left _ hl)
    · intro h
      have hlen : 1 < (ls ++ [([] : Text)]).length := of_decide_eq_true h
      rw [List.length_append, List.length_singleton] at hlen
      have hpos : 0 < ls.length := by omega
      exact List.length_pos_iff.1 hpos
    · -- a text that ends with its only empty piece has no line at all
      intro h
      have hlen : ¬ 1 < (ls ++ [([] : Text)]).length := of_decide_eq_false h
      rw [List.length_append, List.length_singleton] at hlen
      rw [List.eq_nil_of_length_eq_zero (by omega : ls.length = 0)]
      simp
  · next hlast =>
    exact ⟨hmem, fun h => (Bool.false_ne_true h).elim, fun _ => hlast⟩

/-! ## Joining -/

theorem joinLines_true (ls : List Text) (hne : ls ≠ []) :
    joinLines ls true = ['\n'].intercalate (ls ++ [[]]) := (intercalate_append_nil hne).symm

/-- Lines are read back from the text that they are written to. -/
theorem cutLines_joinLines (ls : List Text) (ended : Bool) (h : AreLines ls ended) :
    cutLines (joinLines ls ended) = (ls, ended) := by
  obtain ⟨hmem, hne, hlast⟩ := h
  cases ended with
  | true =>
    have hne := hne rfl
    have hsplit : (joinLines ls true).splitOn '\n' = ls ++ [[]] := by
      rw [joinLines_true ls hne]
      apply List.splitOn_intercalate
      · intro l hl
        rcases List.mem_append.1 hl with hl | hl
        · exact hmem l hl
        · rw [List.mem_singleton.1 hl]
          exact List.not_mem_nil
      · exact List.append_ne_nil_of_left_ne_nil hne _
    have hlen := List.length_pos_iff.2 hne
    simp only [cutLines, hsplit, List.getLast?_concat, List.dropLast_concat, if_true,
      List.length_append, List.length_singleton]
    rw [decide_eq_true (by omega)]
  | false =>
    have hlast := hlast rfl
    by_cases hls : ls = []
    · subst hls
      rfl
    · have hsplit : (joinLines ls false).splitOn '\n' = ls := by
        simp only [joinLines, Bool.false_eq_true, if_false, List.append_nil]
        exact List.splitOn_intercalate '\n' hmem hls
      unfold cutLines
      rw [hsplit]
      simp only [hlast, if_false]

theorem cutLines_eq_iff (t : Text) (ls : List Text) (ended : Bool) :
    cutLines t = (ls, ended) ↔ AreLines ls ended ∧ joinLines ls ended = t := by
  constructor
  · intro h
    have hc := areLines_cutLines t
    have hj := joinLines_cutLines t
    rw [h] at hc hj
    exact ⟨hc, hj⟩
  · rintro ⟨h, rfl⟩
    exact cutLines_joinLines ls ended h

theorem eq_nil_of_cutLines (t : Text) (h : (cutLines t).1 = []) : t = [] := by
  have hended : (cutLines t).2 = false := by
    rw [← Bool.not_eq_true]
    exact fun he => (areLines_cutLines t).ne_nil he h
  rw [← joinLines_cutLines t, h, hended]
  rfl

/-! ## How many lines there are -/

/-- Between the lines of a text there is one newline less than there are lines. -/
theorem count_newline_intercalate (ls : List Text) (hne : ls ≠ []) (h : ∀ l ∈ ls, '\n' ∉ l) :
    (['\n'].intercalate ls).count '\n' + 1 = ls.length := by
  induction ls with
  | nil => exact absurd rfl hne
  | cons l ls ih =>
    have hl : l.count '\n' = 0 := List.count_eq_zero.2 (h l List.mem_cons_self)
    cases ls with
    | nil => rw [List.intercalate_singleton, hl, List.length_singleton]
    | cons m ms =>
      have hms := ih (List.cons_ne_nil m ms) fun k hk => h k (List.mem_cons_of_mem _ hk)
      rw [List.intercalate_cons_cons, List.count_append, List.count_append, hl,
        List.count_singleton_self, List.length_cons]
      omega

theorem exists_intercalate_concat (init : List Text) (last : Text) :
    ∃ s, ['\n'].intercalate (init ++ [last]) = s ++ last := by
  induction init with
  | nil => exact ⟨[], by simp⟩
  | cons l init ih =>
    obtain ⟨s, hs⟩ := ih
    obtain ⟨m, ms, hms⟩ := List.exists_cons_of_ne_nil
      (List.append_ne_nil_of_right_ne_nil init (List.cons_ne_nil last []))
    refine ⟨l ++ ['\n'] ++ s, ?_⟩
    rw [List.cons_append, hms, List.intercalate_cons_cons, ← hms, hs, List.append_assoc (l ++ _)]

theorem getLast?_joinLines_true (ls : List Text) : (joinLines ls true).getLast? = some '\n' :=
  List.getLast?_concat

namespace AreLines

variable {ls : List Text}

/-- A line that no newline ends is not empty, and so its last character ends the text. -/
theorem exists_getLast?_joinLines (h : AreLines ls false) (hne : ls ≠ []) :
    ∃ c ∈ (joinLines ls false).getLast?, c ≠ '\n' := by
  obtain ⟨last, hlast⟩ := Option.ne_none_iff_exists'.1 (mt List.getLast?_eq_none_iff.1 hne)
  obtain ⟨init, rfl⟩ := List.getLast?_eq_some_iff.1 hlast
  have hnil : last ≠ [] := fun he => h.getLast?_ne rfl (he ▸ hlast)
  obtain ⟨s, hs⟩ := exists_intercalate_concat init last
  have hjoin : joinLines (init ++ [last]) false = s ++ last := by simp [joinLines, hs]
  refine ⟨last.getLast hnil, ?_, ?_⟩
  · rw [hjoin, List.getLast?_append_of_ne_nil _ hnil, List.getLast?_eq_some_getLast hnil]
    rfl
  · intro hc
    exact h.newline_notMem last (by simp) (hc ▸ List.getLast_mem hnil)

variable {ended : Bool} (h : AreLines ls ended)

include h

theorem getLast?_joinLines_eq_newline_iff :
    (joinLines ls ended).getLast? = some '\n' ↔ ended = true := by
  cases ended with
  | true => exact iff_of_true (getLast?_joinLines_true ls) rfl
  | false =>
    refine iff_of_false ?_ Bool.false_ne_true
    by_cases hne : ls = []
    · subst hne
      exact fun hlast => nomatch hlast
    · obtain ⟨c, hc, hcn⟩ := h.exists_getLast?_joinLines hne
      rw [hc]
      exact fun hlast => hcn (Option.some.inj hlast)

/-- A text has a line for each newline, and one more if it goes on behind the last newline. -/
theorem length_eq : ls.length = (joinLines ls ended).count '\n' +
    if (joinLines ls ended).getLast?.any (· ≠ '\n') then 1 else 0 := by
  by_cases hne : ls = []
  · subst hne
    cases ended with
    | true => exact absurd rfl (h.ne_nil rfl)
    | false => rfl
  · have hcount := count_newline_intercalate ls hne h.newline_notMem
    cases ended with
    | true =>
      rw [getLast?_joinLines_true]
      simp [joinLines, hcount]
    | false =>
      obtain ⟨c, hc, hcn⟩ := h.exists_getLast?_joinLines hne
      rw [hc]
      simp [joinLines, hcount, hcn]

end AreLines

/-! ## The first character -/

/-- A text starts like its first line, or with a newline if that is empty. -/
theorem head?_joinLines_eq_some_iff (ls : List Text) (ended : Bool) (c : Char) (hc : c ≠ '\n') :
    (joinLines ls ended).head? = some c ↔ ∃ l ∈ ls.head?, l.head? = some c := by
  have hend : (if ended then ['\n'] else []).head? ≠ some c := by
    cases ended <;> simp [Ne.symm hc]
  unfold joinLines
  match ls with
  | [] => simpa using hend
  | [l] => cases l <;> simp_all
  | l :: m :: ms => cases l <;> simp [Ne.symm hc]

end Stanzas
