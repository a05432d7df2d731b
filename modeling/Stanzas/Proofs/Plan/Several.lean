import Mathlib.Data.List.Perm.Basic
import Stanzas.Proofs.Plan.Holds

/-!
# Several intents one after another

Intents that set attributes or ask for a scope do not disturb each other as long as no two of them
have one target, a scope with an attribute or without. What one of them has made to hold, the edits
of all others leave so (`Holds.edit_of_target_ne`), and after a pass of any number of them there is
nothing left to do for any of them, in whatever order they come again:

    (editAll is d) is left as it is by any permutation of `is`              (plans_editAll_of_perm)
-/

namespace Stanzas

namespace Intent

/-! ## Passes -/

/-- The document after the edits of some intents, the first one first. -/
def editAll (is : List Intent) (d : Document) : Document := is.foldl (fun d i => i.edit d) d

/-- What each of some intents plans, for the document that those before it have left. -/
def plans : List Intent → Document → List (Patch × Reason)
  | [], _ => []
  | i :: is, d => i.plan d :: plans is (i.edit d)

/-- What an intent is about. -/
def target (i : Intent) : Scope × Option Text := (i.scope, i.attr)

/-- Whether an intent leaves every scope where it is. -/
def KeepsScopes (i : Intent) : Prop := i.attr ≠ none ∨ i.presence = .present

theorem edit_of_plan_eq (i : Intent) (d : Document) (h : i.plan d = (∅, .unchanged)) :
    i.edit d = d := by
  unfold edit
  rw [h]
  exact Patch.apply_of_isEmpty ∅ d Patch.isEmpty_empty

/-- Intents that hold make a pass in which nothing happens. -/
theorem plans_of_holds (is : List Intent) (d : Document) (hv : ∀ i ∈ is, i.Valid)
    (h : ∀ i ∈ is, i.Holds d) :
    plans is d = List.replicate is.length (∅, .unchanged) ∧ editAll is d = d := by
  unfold editAll
  induction is with
  | nil => exact ⟨rfl, rfl⟩
  | cons i is ih =>
    have hplan := i.plan_of_holds d (hv i List.mem_cons_self) (h i List.mem_cons_self)
    obtain ⟨hplans, hedit⟩ := ih (fun j hj => hv j (List.mem_cons_of_mem _ hj))
      fun j hj => h j (List.mem_cons_of_mem _ hj)
    rw [plans, List.foldl_cons, hplan, i.edit_of_plan_eq d hplan, hplans]
    exact ⟨rfl, hedit⟩

/-! ## What another intent leaves -/

section
variable (j : Intent) (d : Document)

/-- Scopes are made and not taken away. -/
theorem mem_scopes_edit (hj : j.KeepsScopes) (x : Scope) (hx : x ∈ d.scopes) :
    x ∈ (j.edit d).scopes := by
  cases hp : j.presence with
  | present =>
    rw [j.scopes_edit_of_present d hp]
    split
    · exact hx
    · exact List.mem_append_left _ hx
  | absent =>
    obtain ⟨a, ha⟩ : ∃ a, j.attr = some a := by
      rcases hj with ha | hpresent
      · exact Option.ne_none_iff_exists'.1 ha
      · rw [hp] at hpresent
        cases hpresent
    cases hs : d.span? j.scope with
    | some s => rwa [j.scopes_edit_of_span? d a ha s hs]
    | none =>
      rw [j.edit_eq_self d (j.not_removes_of_span?_eq_none d hs)]
      · exact hx
      · unfold newLines
        rw [hs, hp]

/-- A stanza that is made without attributes gives no attribute a value. -/
theorem values_edit_of_scope (ha : j.attr = none) (hp : j.presence = .present) (x : Scope)
    (b : Text) : (j.edit d).values x b = d.values x b := by
  cases hs : d.span? j.scope with
  | some s =>
    rw [j.edit_eq_self d]
    · intro n hn
      unfold Removes at hn
      simp only [ha, hp] at hn
    · unfold newLines attrLines
      rw [hs, ha]
  | none =>
    by_cases hx : x = j.scope
    · have hmissing := (d.span?_eq_none_iff _).1 hs
      rw [hx, d.values_of_notMem_scopes _ b hmissing, j.values_edit_of_new_stanza d hs hp]
      unfold attrLines
      rw [ha]
      rfl
    · exact j.values_edit_of_missing_other d hs hp x hx b

/-- Another attribute keeps its values. -/
theorem values_edit_of_target_ne (hj : j.KeepsScopes) (x : Scope) (a : Text)
    (hne : j.target ≠ (x, some a)) : (j.edit d).values x a = d.values x a := by
  cases hb : j.attr with
  | none =>
    have hp : j.presence = .present := hj.resolve_left fun h => h hb
    exact j.values_edit_of_scope d hb hp x a
  | some b =>
    rw [j.values_edit d b hb, if_neg]
    rintro ⟨rfl, rfl⟩
    exact hne (by rw [target, hb])

end

/-- What holds is not undone by an intent with another target. -/
theorem Holds.edit_of_target_ne {i : Intent} {d : Document} (h : i.Holds d) (hi : i.KeepsScopes)
    (j : Intent) (hj : j.KeepsScopes) (hne : j.target ≠ i.target) : i.Holds (j.edit d) := by
  have hscope := j.mem_scopes_edit d hj i.scope
  have hvalues : ∀ a, i.attr = some a → (j.edit d).values i.scope a = d.values i.scope a := by
    intro a ha
    have htarget : i.target = (i.scope, some a) := by rw [target, ha]
    exact j.values_edit_of_target_ne d hj i.scope a (htarget ▸ hne)
  unfold Holds at h ⊢
  cases ha : i.attr with
  | none =>
    have hp : i.presence = .present := hi.resolve_left fun h => h ha
    rw [ha, hp] at h
    rw [hp]
    exact hscope h
  | some a =>
    have hsame := hvalues a ha
    rw [ha] at h
    cases hp : i.presence with
    | present =>
      rw [hp] at h
      simp only [hsame]
      exact ⟨hscope h.1, h.2⟩
    | absent =>
      rw [hp] at h
      simp only [hsame]
      exact h

/-! ## A whole pass -/

/-- Later intents leave what an earlier one has made to hold. -/
theorem Holds.editAll {i : Intent} {d : Document} (h : i.Holds d) (hi : i.KeepsScopes)
    (js : List Intent) (hjs : ∀ j ∈ js, j.KeepsScopes) (hne : ∀ j ∈ js, j.target ≠ i.target) :
    i.Holds (editAll js d) := by
  unfold Intent.editAll
  induction js generalizing d with
  | nil => exact h
  | cons j js ih =>
    have hj := h.edit_of_target_ne hi j (hjs j List.mem_cons_self) (hne j List.mem_cons_self)
    exact ih hj (fun k hk => hjs k (List.mem_cons_of_mem _ hk))
      fun k hk => hne k (List.mem_cons_of_mem _ hk)

theorem holds_editAll (is : List Intent) (d : Document) (hk : ∀ i ∈ is, i.KeepsScopes)
    (hne : (is.map target).Nodup) : ∀ i ∈ is, i.Holds (editAll is d) := by
  induction is generalizing d with
  | nil => exact fun i hi => absurd hi List.not_mem_nil
  | cons j js ih =>
    have hjs := fun k hk' => hk k (List.mem_cons_of_mem j hk')
    rw [List.map_cons, List.nodup_cons] at hne
    obtain ⟨hj, hrest⟩ := hne
    intro i hi
    rcases List.mem_cons.1 hi with rfl | hi
    · refine (i.holds_edit d).editAll (hk i List.mem_cons_self) js hjs ?_
      intro k hk' he
      exact hj (List.mem_map.2 ⟨k, hk', he⟩)
    · exact ih (j.edit d) hjs hrest i hi

/-- After one pass all of the intents hold, and a second pass has nothing to do, in the same order
or in another one. -/
theorem plans_editAll_of_perm (is js : List Intent) (d : Document)
    (hw : ∀ i ∈ is, ∃ w : Draft, w.check = .ok i) (hk : ∀ i ∈ is, i.KeepsScopes)
    (hne : (is.map target).Nodup) (hperm : js.Perm is) :
    (∀ i ∈ is, i.Holds (editAll is d)) ∧
      plans js (editAll is d) = List.replicate js.length (∅, .unchanged) ∧
      editAll js (editAll is d) = editAll is d := by
  have hholds := holds_editAll is d hk hne
  refine ⟨hholds, ?_⟩
  apply plans_of_holds
  · intro i hi
    obtain ⟨w, hw⟩ := hw i (hperm.mem_iff.1 hi)
    exact w.valid_of_check i hw
  · exact fun i hi => hholds i (hperm.mem_iff.1 hi)

/-- One intent makes the stanza that another one adds to; of two stanzas of a name the first one is
meant. -/
theorem plans_editAll_of_swapped :
    let i : Intent := ⟨.stanza ['s'], none, [], .present, true, false⟩
    let j : Intent := ⟨.stanza ['s'], some ['a'], [['1'], ['2']], .present, true, false⟩
    let k : Intent := ⟨.stanza ['t'], some ['a'], [], .absent, true, false⟩
    let d := Document.read ['t', ':', '\n', 'a', '\n', 't', ':', '\n', 'a', '=', '3']
    (∀ l ∈ [i, j, k], ∃ w : Draft, w.check = .ok l) ∧ (∀ l ∈ [i, j, k], l.KeepsScopes) ∧
      ([i, j, k].map target).Nodup ∧ [k, j, i].Perm [i, j, k] ∧
        (editAll [i, j, k] d).render .spaced =
          "t:\nt:\na=3\n\ns:\n  a = 1\n  a = 2\n".toList ∧
        j.Holds (editAll [i, j, k] d) ∧
        plans [k, j, i] (editAll [i, j, k] d) = List.replicate 3 (∅, .unchanged) := by
  intro i j k d
  have hw : ∀ l ∈ [i, j, k], ∃ w : Draft, w.check = .ok l := by
    intro l hl
    simp only [List.mem_cons, List.not_mem_nil, or_false] at hl
    rcases hl with rfl | rfl | rfl
    · exact ⟨i.draft, rfl⟩
    · exact ⟨j.draft, rfl⟩
    · exact ⟨k.draft, rfl⟩
  have hk : ∀ l ∈ [i, j, k], l.KeepsScopes := by
    intro l hl
    simp only [List.mem_cons, List.not_mem_nil, or_false] at hl
    rcases hl with rfl | rfl | rfl
    · exact Or.inr rfl
    · exact Or.inr rfl
    · exact Or.inl (by simp [k])
  have hne : ([i, j, k].map target).Nodup := by decide
  have hperm : [k, j, i].Perm [i, j, k] := by decide
  have htext : (editAll [i, j, k] d).render .spaced =
      "t:\nt:\na=3\n\ns:\n  a = 1\n  a = 2\n".toList := by decide +kernel
  obtain ⟨hholds, hplans, -⟩ := plans_editAll_of_perm [i, j, k] [k, j, i] d hw hk hne hperm
  exact ⟨hw, hk, hne, hperm, htext, hholds j (by simp), hplans⟩

end Intent

end Stanzas
