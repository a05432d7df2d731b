import Mathlib.Data.List.Basic
import Stanzas.Proofs.Intent
import Stanzas.Proofs.Plan.Attribute
import Stanzas.Proofs.Plan.Reason
import Stanzas.Proofs.Plan.Remove

/-!
# What a reason says of its patch

A plan comes with a reason, and the reason tells what kind of patch it is (`Reason.Describes`): what
it may delete, what it may insert, and that it does something, unless the reason is `unchanged`
(`describes_plan`). All numbers in a plan are those of lines of the document, or of the place behind
the last one.
-/

namespace Stanzas

namespace Patch

/-- Whether a patch inserts only lines of one attribute. -/
def InsertsOnly (p : Patch) (a : Text) : Prop :=
  ∀ n, ∀ l ∈ p.insertedAt n, ∃ v, l = .attribute a v

/-- Whether all that a patch does is to write lines behind those of a document. -/
structure Appends (p : Patch) (d : Document) (ls : List Line) : Prop where
  not_deletes : ∀ n, ¬ p.Deletes n
  insertedAt_eq : ∀ n, p.insertedAt n = if n = d.lines.length then ls else []

theorem Appends.not_isEmpty {p : Patch} {d : Document} {ls : List Line} (h : p.Appends d ls)
    (hne : ls ≠ []) : ¬ p.IsEmpty := by
  intro hempty
  have hnone := (p.isEmpty_iff.1 hempty).2 d.lines.length
  rw [h.insertedAt_eq, if_pos rfl] at hnone
  exact hne hnone

end Patch

/-- What a reason says of an intent, a document and a patch of it. -/
def Reason.Describes (i : Intent) (d : Document) (p : Patch) : Reason → Prop
  | .unchanged => p.IsEmpty
  | .attrAdded => ∃ a s, i.attr = some a ∧ d.span? i.scope = some s ∧ (∀ n, ¬ p.Deletes n) ∧
      (∃ n, p.insertedAt n ≠ []) ∧ p.InsertsOnly a
  | .attrChanged => ∃ a s, i.attr = some a ∧ d.span? i.scope = some s ∧ s.occurrences a ≠ [] ∧
      ((∃ n, p.Deletes n) ∨ ∃ n, p.insertedAt n ≠ []) ∧
        (∀ n, p.Deletes n → ∃ q ∈ s.occurrences a, q.line = n) ∧ p.InsertsOnly a
  | .stanzaAndAttrAdded => ∃ a name vs, i.attr = some a ∧ i.scope = .stanza name ∧
      d.span? i.scope = none ∧ vs ≠ [] ∧
        p.Appends d (Intent.gap d ++ .header name :: vs.map (Line.attribute a))
  | .stanzaAdded => ∃ name, i.attr = none ∧ i.scope = .stanza name ∧ d.span? i.scope = none ∧
      p.Appends d (Intent.gap d ++ [.header name])
  | .stanzaRemoved => i.attr = none ∧ i.presence = .absent ∧ (∀ n, p.insertedAt n = []) ∧
      ∃ n, p.Deletes n

/-- Only one reason stands for a patch that does nothing. -/
theorem Reason.Describes.isEmpty_iff {i : Intent} {d : Document} {p : Patch} {r : Reason}
    (h : r.Describes i d p) : r = .unchanged ↔ p.IsEmpty := by
  constructor
  · rintro rfl
    exact h
  · intro hempty
    obtain ⟨hdel, hins⟩ := p.isEmpty_iff.1 hempty
    cases r with
    | unchanged => rfl
    | attrAdded =>
      obtain ⟨-, -, -, -, -, ⟨n, hn⟩, -⟩ := h
      exact absurd (hins n) hn
    | attrChanged =>
      obtain ⟨-, -, -, -, -, ⟨n, hn⟩ | ⟨n, hn⟩, -⟩ := h
      · exact absurd hn (hdel n)
      · exact absurd (hins n) hn
    | stanzaAndAttrAdded =>
      obtain ⟨_, _, _, -, -, -, -, happends⟩ := h
      exact absurd hempty (happends.not_isEmpty (by simp))
    | stanzaAdded =>
      obtain ⟨_, -, -, -, happends⟩ := h
      exact absurd hempty (happends.not_isEmpty (by simp))
    | stanzaRemoved =>
      obtain ⟨-, -, -, n, hn⟩ := h
      exact absurd hn (hdel n)

namespace Intent

variable (i : Intent) (d : Document)

/-! ## The reason for a scope that is missing -/

theorem appends_plan_of_missing (hs : d.span? i.scope = none) (hp : i.presence = .present) :
    ∃ name, i.scope = .stanza name ∧
      (i.plan d).1.Appends d (gap d ++ .header name :: i.attrLines d) := by
  obtain ⟨name, hname, -⟩ := i.lines_edit_of_missing d hs hp
  exact ⟨name, hname, i.deletes_plan_of_span?_eq_none d hs,
    i.insertedAt_plan_of_missing d hs hp name hname⟩

theorem describes_plan_of_missing (hv : i.Valid) (hs : d.span? i.scope = none) :
    (i.plan d).2.Describes i d (i.plan d).1 := by
  cases hp : i.presence with
  | absent =>
    have hplan : i.plan d = (∅, .unchanged) := by
      unfold plan
      rw [hs, hp]
    rw [hplan]
    exact Patch.isEmpty_empty
  | present =>
    obtain ⟨name, hname, happends⟩ := i.appends_plan_of_missing d hs hp
    cases ha : i.attr with
    | none =>
      have hreason : (i.plan d).2 = .stanzaAdded := by
        unfold plan
        rw [hs, ha, hp]
      rw [i.attrLines_of_attr_eq_none d ha] at happends
      rw [hreason]
      exact ⟨name, ha, hname, hs, happends⟩
    | some a =>
      have hreason : (i.plan d).2 = .stanzaAndAttrAdded := by
        unfold plan
        rw [hs, ha, hp]
      have hne := hv.desired_ne_nil (by rw [ha]; exact Option.some_ne_none a) hp
      rw [i.attrLines_of_span?_eq_none d hs hp a ha] at happends
      rw [hreason]
      exact ⟨a, name, i.desired, ha, hname, hs, hne, happends⟩

/-! ## The reason for an attribute -/

section
variable (a : Text) (s : Span) (ha : i.attr = some a) (hs : d.span? i.scope = some s)

include ha hs

theorem insertedAt_plan_of_attr (n : Nat) : (i.plan d).1.insertedAt n =
    if n = i.insertLine d then (i.missing (s.values a)).map (Line.attribute a) else [] := by
  rw [i.insertedAt_plan d, i.newLines_of_attr a s d ha hs]

theorem insertsOnly_plan_of_attr : (i.plan d).1.InsertsOnly a := by
  intro n l hl
  rw [i.insertedAt_plan_of_attr d a s ha hs] at hl
  split at hl
  · obtain ⟨v, -, rfl⟩ := List.mem_map.1 hl
    exact ⟨v, rfl⟩
  · cases hl

theorem exists_insertedAt_plan_of_attr (hne : i.missing (s.values a) ≠ []) :
    ∃ n, (i.plan d).1.insertedAt n ≠ [] := by
  refine ⟨i.insertLine d, ?_⟩
  rw [i.insertedAt_plan_of_attr d a s ha hs, if_pos rfl]
  exact mt List.map_eq_nil_iff.1 hne

theorem deletes_plan_iff_of_attr (n : Nat) : (i.plan d).1.Deletes n ↔
    ∃ p ∈ s.occurrences a, p.line = n ∧ i.drops p.value = true := by
  rw [i.deletes_plan d, i.removes_iff_of_attr a s d ha hs]

theorem not_deletes_plan_of_attr (hkeep : ∀ v ∈ s.values a, i.drops v = false) (n : Nat) :
    ¬ (i.plan d).1.Deletes n := by
  rw [i.deletes_plan_iff_of_attr d a s ha hs]
  rintro ⟨q, hq, -, hdrops⟩
  rw [hkeep] at hdrops
  · cases hdrops
  · rw [← s.map_value_occurrences]
    exact List.mem_map_of_mem hq

theorem describes_plan_of_attr (hv : i.Valid) : (i.plan d).2.Describes i d (i.plan d).1 := by
  have honly := i.insertsOnly_plan_of_attr d a s ha hs
  have hnew := i.exists_insertedAt_plan_of_attr d a s ha hs
  have hdel := i.deletes_plan_iff_of_attr d a s ha hs
  have hkept := i.not_deletes_plan_of_attr d a s ha hs
  have hexplains := i.explains_reasonFor (s.values a) (hv.desired_ne_nil (by simp [ha]))
  rw [i.snd_plan_of_attr d a ha s hs]
  -- each case fixes the reason
  generalize i.reasonFor (s.values a) = reason at hexplains ⊢
  cases hexplains with
  | unchanged hkeep hnone =>
    refine (i.plan d).1.isEmpty_iff.2 ⟨hkept hkeep, ?_⟩
    intro n
    rw [i.insertedAt_plan_of_attr d a s ha hs, hnone, List.map_nil, ite_self]
  | attrAdded hkeep hsome => exact ⟨a, s, ha, hs, hkept hkeep, hnew hsome, honly⟩
  | attrChanged hold hchange =>
    rw [← s.map_value_occurrences] at hold
    refine ⟨a, s, ha, hs, mt List.map_eq_nil_iff.2 hold, ?_, ?_, honly⟩
    · rcases hchange with ⟨v, hv, hdrops⟩ | hsome
      · rw [← s.map_value_occurrences] at hv
        obtain ⟨q, hq, rfl⟩ := List.mem_map.1 hv
        exact Or.inl ⟨q.line, (hdel _).2 ⟨q, hq, rfl, hdrops⟩⟩
      · exact Or.inr (hnew hsome)
    · intro n hn
      obtain ⟨q, hq, hline, -⟩ := (hdel n).1 hn
      exact ⟨q, hq, hline⟩

end

/-! ## The reason for a whole scope -/

theorem describes_plan_of_scope (ha : i.attr = none) (s : Span) (hs : d.span? i.scope = some s) :
    (i.plan d).2.Describes i d (i.plan d).1 := by
  have hsame : i.plan d = (∅, .unchanged) → (i.plan d).2.Describes i d (i.plan d).1 := by
    intro hplan
    rw [hplan]
    exact Patch.isEmpty_empty
  cases hp : i.presence with
  | present =>
    apply hsame
    unfold plan
    rw [hs, ha, hp]
  | absent =>
    have hins : ∀ n, (i.plan d).1.insertedAt n = [] := by
      intro n
      rw [i.insertedAt_plan d, i.newLines_of_absent d ha hp, ite_self]
    have hgone : ¬ (i.plan d).1.IsEmpty ∧ (i.plan d).2 = .stanzaRemoved →
        (i.plan d).2.Describes i d (i.plan d).1 := by
      rintro ⟨hchange, hreason⟩
      rw [hreason]
      refine ⟨ha, hp, hins, ?_⟩
      by_contra hnone
      rw [not_exists] at hnone
      exact hchange ((i.plan d).1.isEmpty_iff.2 ⟨hnone, hins⟩)
    cases hx : i.scope with
    | stanza name =>
      have hremoves := i.removesStanzas d ha hp name hx
      by_cases hmem : name ∈ d.stanzaNames
      · exact hgone (hremoves.plan_of_mem hmem)
      · exact hsame (hremoves.plan_of_notMem hmem)
    | top =>
      have hremoves := i.removesTopAttributes d ha hp hx
      by_cases hall : ∀ l ∈ d.lines.takeWhile (·.stanzaName?.isNone), l.attribute? = none
      · exact hsame (hremoves.plan_of_forall hall)
      · apply hgone (hremoves.plan_of_exists _)
        simpa using hall

/-! ## All plans -/

theorem describes_plan_of_valid (hv : i.Valid) : (i.plan d).2.Describes i d (i.plan d).1 := by
  cases hs : d.span? i.scope with
  | none => exact i.describes_plan_of_missing d hv hs
  | some s =>
    cases ha : i.attr with
    | none => exact i.describes_plan_of_scope d ha s hs
    | some a => exact i.describes_plan_of_attr d a s ha hs hv

/-- Only lines of the document are deleted. -/
theorem lt_length_of_deletes (n : Nat) (h : (i.plan d).1.Deletes n) : n < d.lines.length := by
  cases hs : d.span? i.scope with
  | none => exact absurd h (i.deletes_plan_of_span?_eq_none d hs n)
  | some s =>
    cases ha : i.attr with
    | some a =>
      rw [i.deletes_plan d] at h
      exact (d.exists_covers_iff n).1
        ⟨s, List.mem_of_find?_eq_some hs, i.start_le_of_removes a s d ha hs n h⟩
    | none =>
      cases hp : i.presence with
      | present =>
        rw [i.deletes_plan d] at h
        unfold Removes at h
        simp only [ha, hp] at h
      | absent =>
        cases hx : i.scope with
        | top => exact (((i.removesTopAttributes d ha hp hx).deletes_iff n).1 h).1.1
        | stanza name =>
          obtain ⟨t, ht, hn⟩ := ((i.removesStanzas d ha hp name hx).deletes_iff n).1 h
          exact (d.exists_covers_iff n).1 ⟨t, (List.mem_filter.1 ht).1, hn⟩

theorem describes_plan (w : Draft) (hw : w.check = .ok i) :
    ((i.plan d).2 = .unchanged ↔ (i.plan d).1.IsEmpty) ∧
      (i.plan d).2.Describes i d (i.plan d).1 ∧
      (∀ n, (i.plan d).1.Deletes n → n < d.lines.length) ∧
      ∀ n, (i.plan d).1.insertedAt n ≠ [] → n ≤ d.lines.length := by
  have hdescribes := i.describes_plan_of_valid d (w.valid_of_check i hw)
  refine ⟨hdescribes.isEmpty_iff, hdescribes, i.lt_length_of_deletes d, ?_⟩
  intro n hn
  rw [i.insertedAt_plan d] at hn
  by_cases hline : n = i.insertLine d
  · rw [hline]
    exact i.insertLine_le_length d
  · rw [if_neg hline] at hn
    exact absurd rfl hn

/-- Another value takes the place of the one that is there. -/
theorem describes_plan_of_other_value :
    let w : Draft := { scope := .stanza ['s'], attr := some ['a'], values := [['2']] }
    let i : Intent := ⟨.stanza ['s'], some ['a'], [['2']], .present, true, false⟩
    let d := Document.read ['b', '\n', 's', ':', '\n', 'a', '=', '1']
    w.check = .ok i ∧ (i.plan d).2 = .attrChanged ∧ ¬ (i.plan d).1.IsEmpty ∧
      Reason.Describes i d (i.plan d).1 .attrChanged := by
  intro w i d
  have hcheck : w.check = .ok i := rfl
  have hreason : (i.plan d).2 = .attrChanged := by decide
  obtain ⟨hunchanged, hdescribes, -⟩ := i.describes_plan d w hcheck
  rw [hreason] at hunchanged hdescribes
  refine ⟨hcheck, hreason, ?_, hdescribes⟩
  intro hempty
  cases hunchanged.2 hempty

end Intent

end Stanzas
