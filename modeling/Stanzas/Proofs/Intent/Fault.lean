import Mathlib.Data.List.Basic
import Stanzas.Proofs.Intent

/-!
# What is wrong with a draft

`Draft.Fault` lists all that can be wrong with a draft, each fault for itself. `Draft.check` reports
the first one in the order stanza, attribute, value, missing value, and finds an intent just if
there is none:

    w.check = .error e ↔ w.FirstFault e                                        (check_eq_error_iff)
    (∃ i, w.check = .ok i) ↔ ∀ e, ¬ w.Fault e                              (exists_check_eq_ok_iff)

The check of a part fails just for its own fault (`checkScope_eq_error_iff` and its kin), and each
part is looked at only if nothing is wrong with those before it.
-/

namespace Stanzas

open Intent (Error)

/-- The place of an error in the order in which errors are looked for. -/
def Intent.Error.rank : Error → Nat
  | .badStanza _ => 0
  | .badAttr _ => 1
  | .badValue _ => 2
  | .missingValue => 3
  | .badPresence _ => 4

namespace Draft

/-- What is wrong with a draft, whatever else is. Of several bad values the first one counts. -/
inductive Fault (w : Draft) : Error → Prop where
  | badStanza (name : Text) (hscope : w.scope = .stanza name) (hne : trim name ≠ [])
    (hbad : ¬ StanzaName (trim name)) : Fault w (.badStanza (trim name))
  | badAttr (name : Text) (hattr : w.attr = some name) (hbad : ¬ AttrName (trim name)) :
    Fault w (.badAttr (trim name))
  | badValue (pre : List Text) (v : Text) (post : List Text) (hvalues : w.values = pre ++ v :: post)
    (hpre : ∀ u ∈ pre, OneLine (trim u)) (hbad : ¬ OneLine (trim v)) : Fault w (.badValue (trim v))
  | missingValue (hattr : w.attr ≠ none) (hp : w.presence = .present) (hvalues : w.values = [])
    (hb : w.allowNoValue = false) : Fault w .missingValue

/-! ## Part by part -/

section
variable (w : Draft) (e : Error)

theorem checkScope_eq_error_iff : checkScope w.scope = .error e ↔ w.Fault e ∧ e.rank = 0 := by
  constructor
  · intro h
    unfold checkScope at h
    split at h
    · cases h
    · next name hscope =>
      split at h
      · cases h
      · next hne =>
        split at h
        · cases h
        · next hbad =>
          cases h
          exact ⟨.badStanza name hscope hne hbad, rfl⟩
  · rintro ⟨hf, hr⟩
    cases hf with
    | badStanza name hscope hne hbad =>
      unfold checkScope
      rw [hscope]
      simp only [if_neg hne, if_neg hbad]
    | badAttr => cases hr
    | badValue => cases hr
    | missingValue => cases hr

theorem checkAttr_eq_error_iff : checkAttr w.attr = .error e ↔ w.Fault e ∧ e.rank = 1 := by
  constructor
  · intro h
    unfold checkAttr at h
    split at h
    · cases h
    · next name hattr =>
      split at h
      · cases h
      · next hbad =>
        cases h
        exact ⟨.badAttr name hattr hbad, rfl⟩
  · rintro ⟨hf, hr⟩
    cases hf with
    | badAttr name hattr hbad =>
      unfold checkAttr
      rw [hattr]
      exact if_neg hbad
    | badStanza => cases hr
    | badValue => cases hr
    | missingValue => cases hr

theorem checkValues_eq_error_iff : checkValues w.values = .error e ↔ w.Fault e ∧ e.rank = 2 := by
  constructor
  · intro h
    unfold checkValues at h
    split at h
    · next x hx =>
      cases h
      obtain ⟨hbad, pre, post, hsplit, hpre⟩ := List.find?_eq_some_iff_append.1 hx
      obtain ⟨us, vs, hvalues, rfl, hvs⟩ := List.map_eq_append_iff.1 hsplit
      obtain ⟨v, rest, rfl, rfl, rfl⟩ := List.map_eq_cons_iff.1 hvs
      refine ⟨.badValue us v rest hvalues ?_ (by simpa using hbad), rfl⟩
      intro u hu
      simpa using hpre _ (List.mem_map_of_mem hu)
    · cases h
  · rintro ⟨hf, hr⟩
    cases hf with
    | badValue pre v post hvalues hpre hbad =>
      have hfirst : (w.values.map trim).find? (¬ OneLine ·) = some (trim v) := by
        rw [List.find?_eq_some_iff_append]
        refine ⟨by simpa using hbad, pre.map trim, post.map trim, by simp [hvalues], ?_⟩
        intro u hu
        obtain ⟨u', hu', rfl⟩ := List.mem_map.1 hu
        simpa using hpre u' hu'
      unfold checkValues
      rw [hfirst]
    | badStanza => cases hr
    | badAttr => cases hr
    | missingValue => cases hr

end

section
variable (w : Draft) {α : Type} {part : Except Error α} (k : Nat)
  (hpart : ∀ e, part = .error e ↔ w.Fault e ∧ e.rank = k)

include hpart

/-- A part that is fine has no fault of its own. -/
theorem rank_ne_of_part {y : α} (hy : part = .ok y) (f : Error) (hf : w.Fault f) : f.rank ≠ k := by
  intro hr
  have := (hpart f).2 ⟨hf, hr⟩
  rw [hy] at this
  cases this

/-- A part has one fault at most. -/
theorem eq_of_part {e f : Error} (he : w.Fault e) (hf : w.Fault f) (h : e.rank = f.rank)
    (hk : e.rank = k) : e = f := by
  have h1 := (hpart e).2 ⟨he, hk⟩
  have h2 := (hpart f).2 ⟨hf, h.symm.trans hk⟩
  exact Except.error.inj (h1.symm.trans h2)

end

/-- No two faults of a draft have the same place in the order. -/
theorem Fault.unique {w : Draft} {e f : Error} (he : w.Fault e) (hf : w.Fault f)
    (h : e.rank = f.rank) : e = f := by
  have hscope := w.eq_of_part 0 w.checkScope_eq_error_iff he hf h
  have hattr := w.eq_of_part 1 w.checkAttr_eq_error_iff he hf h
  have hvalues := w.eq_of_part 2 w.checkValues_eq_error_iff he hf h
  cases he with
  | badStanza => exact hscope rfl
  | badAttr => exact hattr rfl
  | badValue => exact hvalues rfl
  | missingValue =>
    cases hf with
    | missingValue => rfl
    | badStanza => cases h
    | badAttr => cases h
    | badValue => cases h

/-! ## The first fault -/

variable (w : Draft)

/-- A fault with no other one before it. -/
def FirstFault (e : Error) : Prop := w.Fault e ∧ ∀ f, w.Fault f → e.rank ≤ f.rank

theorem FirstFault.unique {w : Draft} {e f : Error} (he : w.FirstFault e) (hf : w.FirstFault f) :
    e = f :=
  he.1.unique hf.1 (Nat.le_antisymm (he.2 f hf.1) (hf.2 e he.1))

/-- Where nothing is wrong with the parts, a value may still be missing. -/
theorem check_of_parts (x : Scope) (a : Option Text) (vs : List Text)
    (hx : checkScope w.scope = .ok x) (ha : checkAttr w.attr = .ok a)
    (hvs : checkValues w.values = .ok vs) : w.check =
      if a ≠ none ∧ w.presence = .present ∧ vs = [] ∧ ¬ w.allowNoValue then .error .missingValue
      else .ok { w with scope := x, attr := a, values := vs } := by
  unfold check
  rw [hx, ha, hvs]
  rfl

theorem check_cases_of_parts (x : Scope) (a : Option Text) (vs : List Text)
    (hx : checkScope w.scope = .ok x) (ha : checkAttr w.attr = .ok a)
    (hvs : checkValues w.values = .ok vs) : (∃ e, w.check = .error e ∧ w.FirstFault e) ∨
      ∃ i, w.check = .ok i ∧ ∀ e, ¬ w.Fault e := by
  have hzero := w.rank_ne_of_part 0 w.checkScope_eq_error_iff hx
  have hone := w.rank_ne_of_part 1 w.checkAttr_eq_error_iff ha
  have htwo := w.rank_ne_of_part 2 w.checkValues_eq_error_iff hvs
  have hnone : a = none ↔ w.attr = none := by
    rw [((checkAttr_eq_ok_iff _ _).1 ha).1, Option.map_eq_none_iff]
  have hnil : vs = [] ↔ w.values = [] := by
    rw [((checkValues_eq_ok_iff _ _).1 hvs).1, List.eq_nil_iff_forall_not_mem,
      ← List.map_eq_nil_iff (f := trim), List.eq_nil_iff_forall_not_mem]
    simp only [List.mem_eraseDups]
  rw [w.check_of_parts x a vs hx ha hvs]
  split
  · next h =>
    obtain ⟨ha, hp, hv, hb⟩ := h
    have he : w.Fault .missingValue :=
      .missingValue (mt hnone.2 ha) hp (hnil.1 hv) (Bool.eq_false_iff.2 hb)
    refine Or.inl ⟨_, rfl, he, fun f hf => ?_⟩
    have := hzero f hf
    have := hone f hf
    have := htwo f hf
    have hthree : Error.missingValue.rank = 3 := rfl
    omega
  · next h =>
    refine Or.inr ⟨_, rfl, fun f hf => ?_⟩
    cases hf with
    | missingValue hattr hp hvalues hb =>
      exact h ⟨mt hnone.1 hattr, hp, hnil.2 hvalues, Bool.eq_false_iff.1 hb⟩
    | badStanza name hname hne hbad => exact hzero _ (.badStanza name hname hne hbad) rfl
    | badAttr name hname hbad => exact hone _ (.badAttr name hname hbad) rfl
    | badValue pre v post hsplit hpre hbad =>
      exact htwo _ (.badValue pre v post hsplit hpre hbad) rfl

/-- Each part is looked at only if nothing is wrong with those before it. -/
theorem check_cases : (∃ e, w.check = .error e ∧ w.FirstFault e) ∨
    ∃ i, w.check = .ok i ∧ ∀ e, ¬ w.Fault e := by
  cases hx : checkScope w.scope with
  | error e =>
    obtain ⟨he, hr⟩ := (w.checkScope_eq_error_iff e).1 hx
    refine Or.inl ⟨e, ?_, he, fun f _ => by omega⟩
    unfold check
    rw [hx]
    rfl
  | ok x =>
    have hzero := w.rank_ne_of_part 0 w.checkScope_eq_error_iff hx
    cases ha : checkAttr w.attr with
    | error e =>
      obtain ⟨he, hr⟩ := (w.checkAttr_eq_error_iff e).1 ha
      refine Or.inl ⟨e, ?_, he, fun f hf => ?_⟩
      · unfold check
        rw [hx, ha]
        rfl
      · have := hzero f hf
        omega
    | ok a =>
      have hone := w.rank_ne_of_part 1 w.checkAttr_eq_error_iff ha
      cases hvs : checkValues w.values with
      | error e =>
        obtain ⟨he, hr⟩ := (w.checkValues_eq_error_iff e).1 hvs
        refine Or.inl ⟨e, ?_, he, fun f hf => ?_⟩
        · unfold check
          rw [hx, ha, hvs]
          rfl
        · have := hzero f hf
          have := hone f hf
          omega
      | ok vs => exact w.check_cases_of_parts x a vs hx ha hvs

theorem check_eq_error_iff (e : Error) : w.check = .error e ↔ w.FirstFault e := by
  rcases w.check_cases with ⟨f, hf, hfirst⟩ | ⟨i, hi, hnone⟩
  · rw [hf, Except.error.injEq]
    exact ⟨fun h => h ▸ hfirst, hfirst.unique⟩
  · rw [hi]
    exact iff_of_false (fun h => nomatch h) fun h => hnone e h.1

theorem exists_check_eq_ok_iff : (∃ i, w.check = .ok i) ↔ ∀ e, ¬ w.Fault e := by
  rcases w.check_cases with ⟨f, hf, hfirst⟩ | ⟨i, hi, hnone⟩
  · rw [hf]
    exact iff_of_false (fun ⟨i, hi⟩ => nomatch hi) fun h => h f hfirst.1
  · exact iff_of_true ⟨i, hi⟩ hnone

end Draft

end Stanzas
