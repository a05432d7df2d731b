import Mathlib.Data.List.Basic
import Stanzas.Plan
import Stanzas.Proofs.Patch
import Stanzas.Proofs.Scope.Places

/-!
# What a plan does

All that a plan does to a document is to take some of its lines away (`Intent.Removes`) and to write
new lines (`Intent.newLines`) in front of one line (`Intent.insertLine`):

    (i.plan d).1.Deletes n ↔ i.Removes d n                                         (deletes_plan)
    (i.plan d).1.insertedAt n = if n = i.insertLine d then i.newLines d else []  (insertedAt_plan)

So the lines of the edited document are those that stay, parted by the new ones (`lines_edit`).
-/

namespace Stanzas

/-! ## Steps of a patch -/

namespace Patch

variable (p : Patch)

theorem deletes_deletePlaces (places : List Place) (n : Nat) :
    (p.deletePlaces places).Deletes n ↔ p.Deletes n ∨ ∃ q ∈ places, q.line = n := by
  unfold deletePlaces
  induction places generalizing p with
  | nil => simp
  | cons q places ih =>
    rw [List.foldl_cons, ih, deletes_delete, or_assoc, eq_comm (a := n)]
    simp only [List.mem_cons, exists_eq_or_imp]

theorem not_isEmpty_deletePlaces (places : List Place) (hne : places ≠ []) :
    ¬ (p.deletePlaces places).IsEmpty := by
  obtain ⟨q, hq⟩ := List.exists_mem_of_ne_nil places hne
  apply not_isEmpty_of_deletes _ q.line
  exact (p.deletes_deletePlaces places q.line).2 (Or.inr ⟨q, hq, rfl⟩)

theorem insertedAt_deletePlaces (places : List Place) (n : Nat) :
    (p.deletePlaces places).insertedAt n = p.insertedAt n := by
  unfold deletePlaces
  induction places generalizing p with
  | nil => rfl
  | cons q places ih =>
    rw [List.foldl_cons, ih]
    rfl

theorem deletes_deleteSpans (spans : List Span) (n : Nat) :
    (p.deleteSpans spans).Deletes n ↔ p.Deletes n ∨ ∃ s ∈ spans, s.start ≤ n ∧ n < s.stop := by
  unfold deleteSpans
  induction spans generalizing p with
  | nil => simp
  | cons s spans ih =>
    rw [List.foldl_cons, ih, deletes_deleteRange]
    simp only [List.mem_cons, exists_eq_or_imp, or_assoc]

theorem insertedAt_deleteSpans (spans : List Span) (n : Nat) :
    (p.deleteSpans spans).insertedAt n = p.insertedAt n := by
  unfold deleteSpans
  induction spans generalizing p with
  | nil => rfl
  | cons s spans ih =>
    rw [List.foldl_cons, ih]
    rfl

theorem insertedAt_insertAttr (m n : Nat) (a : Text) (vs : List (Option Text)) :
    (p.insertAttr m a vs).insertedAt n =
      p.insertedAt n ++ if n = m then vs.map (Line.attribute a) else [] := by
  unfold insertAttr
  rw [insertedAt_insert]
  simp only [eq_comm]

theorem deletes_insertAttr (m n : Nat) (a : Text) (vs : List (Option Text)) :
    (p.insertAttr m a vs).Deletes n ↔ p.Deletes n := Iff.rfl

end Patch

/-! ## What an intent takes and adds -/

/-- What makes membership among values decidable. -/
instance lawfulBEqValue : LawfulBEq (Option Text) := inferInstance

namespace Intent

variable (i : Intent)

/-- The values that an attribute loses. -/
def drops (v : Option Text) : Bool :=
  match i.presence, i.exclusive with
  | .present, true => v ∉ i.desired
  | .present, false => false
  | .absent, true => true
  | .absent, false => v ∈ i.values.map some

/-- The values that an attribute gets, if it has some already. -/
def missing (old : List (Option Text)) : List (Option Text) :=
  match i.presence with
  | .present => i.desired.filter (· ∉ old)
  | .absent => []

/-- The lines that go, by their numbers. -/
def Removes (d : Document) (n : Nat) : Prop :=
  match i.attr, i.presence, i.scope with
  | none, .present, _ => False
  | none, .absent, .top => ∃ s, d.span? .top = some s ∧ ∃ p ∈ s.places, p.line = n
  | none, .absent, .stanza name => ∃ s ∈ d.spansOf (.stanza name), s.start ≤ n ∧ n < s.stop
  | some a, _, x => ∃ s, d.span? x = some s ∧ ∃ p ∈ s.occurrences a, p.line = n ∧ i.drops p.value

/-- The lines of an attribute that a scope gets. -/
def attrLines (d : Document) : List Line :=
  match i.attr with
  | none => []
  | some a => (i.missing (d.values i.scope a)).map (Line.attribute a)

/-- The blank line in front of a new stanza, unless the document ends with one. -/
def gap (d : Document) : List Line := if d.lines.getLast?.any Line.isBlank then [] else [.blank]

/-- The new lines of an edit. A stanza that is missing is written only to be present. -/
def newLines (d : Document) : List Line :=
  match d.span? i.scope, i.presence, i.scope with
  | some _, _, _ => i.attrLines d
  | none, .present, .stanza name => gap d ++ .header name :: i.attrLines d
  | none, _, _ => []

/-- The line of a span that the new lines of an attribute go in front of. -/
def attrLineIn (s : Span) (a : Text) : Nat :=
  match s.occurrences a with
  | [] => s.appendLine
  | first :: rest =>
    if i.presence = .present ∧ i.exclusive then
      match ((first :: rest).filter (·.value ∈ i.desired)).getLast? with
      | some p => p.line + 1
      | none => first.line
    else s.appendLine

/-- The line that the new lines of an edit go in front of. -/
def insertLine (d : Document) : Nat :=
  match d.span? i.scope, i.attr with
  | some s, some a => i.attrLineIn s a
  | _, _ => d.lines.length

end Intent

/-! ## The planner -/

namespace Span

variable (s : Span) (a : Text) (desired : List (Option Text))

theorem deletes_replaceValues (n : Nat) : (s.replaceValues a desired).1.Deletes n ↔
    ∃ p ∈ s.occurrences a, p.line = n ∧ p.value ∉ desired := by
  unfold replaceValues
  split
  · next h =>
    rw [h]
    simp [Patch.deletes_insertAttr, Patch.not_deletes_empty]
  · next first rest h =>
    simp only
    rw [h]
    split
    · next hd =>
      have hkeep := List.filter_eq_nil_iff.1 hd.1
      refine iff_of_false (Patch.not_deletes_empty n) ?_
      rintro ⟨p, hp, -, hv⟩
      exact hkeep p hp (by simpa using hv)
    · rw [Patch.deletes_insertAttr, Patch.deletes_deletePlaces]
      simp only [Patch.not_deletes_empty, false_or, List.mem_filter, decide_eq_true_eq]
      constructor
      · rintro ⟨p, ⟨hp, hv⟩, hn⟩
        exact ⟨p, hp, hn, hv⟩
      · rintro ⟨p, hp, hn, hv⟩
        exact ⟨p, ⟨hp, hv⟩, hn⟩

theorem deletes_addValues (n : Nat) : ¬ (s.addValues a desired).1.Deletes n := by
  unfold addValues
  split
  · exact Patch.not_deletes_empty n
  · rw [Patch.deletes_insertAttr]
    exact Patch.not_deletes_empty n

theorem insertedAt_addValues (n : Nat) : (s.addValues a desired).1.insertedAt n =
    if n = s.appendLine then (desired.filter (· ∉ s.values a)).map (Line.attribute a) else [] := by
  unfold addValues
  rw [s.map_value_occurrences]
  split
  · next h =>
    rw [h]
    simp [Patch.insertedAt_empty]
  · next h => rw [h, Patch.insertedAt_insertAttr, Patch.insertedAt_empty, List.nil_append]

theorem insertedAt_replaceValues (i : Intent) (hp : i.presence = .present) (he : i.exclusive = true)
    (n : Nat) : (s.replaceValues a i.desired).1.insertedAt n = if n = i.attrLineIn s a then
      (i.desired.filter (· ∉ s.values a)).map (Line.attribute a) else [] := by
  have hvalues := s.map_value_occurrences a
  unfold replaceValues Intent.attrLineIn
  rw [← hvalues]
  cases s.occurrences a with
  | nil =>
    simp only [List.map_nil, List.not_mem_nil, not_false_eq_true, decide_true, List.filter_true]
    rw [Patch.insertedAt_insertAttr, Patch.insertedAt_empty, List.nil_append]
  | cons first rest =>
    simp only [hp, he, and_self, if_true]
    split
    · next hd => rw [Patch.insertedAt_empty, hd.2, List.map_nil, ite_self]
    · rw [Patch.insertedAt_insertAttr, Patch.insertedAt_deletePlaces, Patch.insertedAt_empty]
      exact List.nil_append _

theorem replaceValues_of_subset (hne : desired ≠ []) (hget : ∀ v ∈ desired, v ∈ s.values a)
    (hkeep : ∀ v ∈ s.values a, v ∈ desired) : s.replaceValues a desired = (∅, .unchanged) := by
  rw [← s.map_value_occurrences] at hget hkeep
  unfold replaceValues
  split
  · next h =>
    obtain ⟨v, vs, rfl⟩ := List.exists_cons_of_ne_nil hne
    have hv := hget v List.mem_cons_self
    rw [h] at hv
    cases hv
  · next first rest h =>
    rw [h] at hget hkeep
    apply if_pos
    constructor
    · rw [List.filter_eq_nil_iff]
      intro p hp
      simpa using hkeep p.value (List.mem_map_of_mem hp)
    · rw [List.filter_eq_nil_iff]
      intro v hv hnone
      exact of_decide_eq_true hnone (hget v hv)

theorem addValues_of_subset (hget : ∀ v ∈ desired, v ∈ s.values a) :
    s.addValues a desired = (∅, .unchanged) := by
  have hnone : desired.filter (· ∉ (s.occurrences a).map Place.value) = [] := by
    rw [List.filter_eq_nil_iff, s.map_value_occurrences]
    intro v hv
    simpa using hget v hv
  unfold addValues
  rw [hnone]

theorem remove_of_values_eq_nil (d : Document) (hx : s.scope = .top)
    (hnil : ∀ a, s.values a = []) : s.remove d = (∅, .unchanged) := by
  unfold remove
  rw [hx, s.places_eq_nil_iff.2 hnil]

theorem deletes_remove (d : Document) (n : Nat) : (s.remove d).1.Deletes n ↔
    match s.scope with
    | .top => ∃ p ∈ s.places, p.line = n
    | .stanza name => ∃ t ∈ d.spansOf (.stanza name), t.start ≤ n ∧ n < t.stop := by
  unfold remove
  cases s.scope with
  | top =>
    simp only
    split
    · next h => simp [h, Patch.not_deletes_empty]
    · next h =>
      rw [h, Patch.deletes_deletePlaces]
      simp only [Patch.not_deletes_empty, false_or]
  | stanza name =>
    simp only [Patch.deletes_deleteSpans, Patch.not_deletes_empty, false_or]

theorem insertedAt_remove (d : Document) (n : Nat) : (s.remove d).1.insertedAt n = [] := by
  unfold remove
  cases s.scope with
  | top =>
    simp only
    split
    · exact Patch.insertedAt_empty n
    · rw [Patch.insertedAt_deletePlaces, Patch.insertedAt_empty]
  | stanza name =>
    simp only
    rw [Patch.insertedAt_deleteSpans, Patch.insertedAt_empty]

end Span

namespace Intent

theorem deletes_dropPlaces (places : List Place) (n : Nat) :
    (dropPlaces places).1.Deletes n ↔ ∃ p ∈ places, p.line = n := by
  unfold dropPlaces
  split
  · simp [Patch.not_deletes_empty]
  · rw [Patch.deletes_deletePlaces]
    simp only [Patch.not_deletes_empty, false_or]

theorem insertedAt_dropPlaces (places : List Place) (n : Nat) :
    (dropPlaces places).1.insertedAt n = [] := by
  unfold dropPlaces
  split
  · exact Patch.insertedAt_empty n
  · rw [Patch.insertedAt_deletePlaces, Patch.insertedAt_empty]

theorem dropPlaces_of_disjoint (s : Span) (a : Text) (vs : List (Option Text))
    (h : ∀ v ∈ vs, v ∉ s.values a) :
    dropPlaces ((s.occurrences a).filter (·.value ∈ vs)) = (∅, .unchanged) := by
  have hnone : (s.occurrences a).filter (·.value ∈ vs) = [] := by
    rw [List.filter_eq_nil_iff]
    intro p hp hv
    apply h p.value (of_decide_eq_true hv)
    rw [← s.map_value_occurrences]
    exact List.mem_map_of_mem hp
  rw [hnone]
  rfl

variable (i : Intent) (d : Document)

theorem deletes_appendStanza (p : Patch) (x : Scope) (body : List Line) (n : Nat) :
    (p.appendStanza d x body).Deletes n ↔ p.Deletes n := by
  unfold Patch.appendStanza
  split <;> exact Iff.rfl

/-- A document loses no line to an intent about a scope that it does not have. -/
theorem not_removes_of_span?_eq_none (hs : d.span? i.scope = none) (n : Nat) : ¬ i.Removes d n := by
  intro h
  unfold Removes at h
  cases ha : i.attr with
  | some a =>
    simp only [ha, hs] at h
    obtain ⟨s, hs', -⟩ := h
    cases hs'
  | none =>
    cases hp : i.presence with
    | present => simp only [ha, hp] at h
    | absent =>
      cases hx : i.scope with
      | top =>
        have htop := d.isSome_span?_top
        rw [← hx, hs] at htop
        cases htop
      | stanza name =>
        have hspans : d.spansOf (.stanza name) = [] := by
          unfold Document.spansOf
          rw [List.filter_eq_nil_iff, ← hx]
          exact List.find?_eq_none.1 hs
        simp only [ha, hp, hx, hspans] at h
        obtain ⟨s, hs', -⟩ := h
        cases hs'

theorem deletes_plan_of_span?_eq_none (hs : d.span? i.scope = none) (n : Nat) :
    ¬ (i.plan d).1.Deletes n := by
  unfold plan
  rw [hs]
  cases i.presence with
  | absent => exact Patch.not_deletes_empty n
  | present =>
    cases i.attr with
    | none =>
      rw [deletes_appendStanza]
      exact Patch.not_deletes_empty n
    | some a =>
      rw [deletes_appendStanza]
      exact Patch.not_deletes_empty n

theorem deletes_plan_of_scope (ha : i.attr = none) (s : Span) (hs : d.span? i.scope = some s)
    (n : Nat) : (i.plan d).1.Deletes n ↔ i.Removes d n := by
  obtain ⟨-, -, -, -, hscope, -⟩ := d.sections_of_span? _ s hs
  unfold plan Removes
  rw [hs, ha]
  cases i.presence with
  | present => exact iff_of_false (Patch.not_deletes_empty n) id
  | absent =>
    simp only
    rw [s.deletes_remove, hscope]
    cases hx : i.scope with
    | top =>
      rw [hx] at hs
      simp [hs]
    | stanza name => rfl

theorem deletes_plan_of_attr (a : Text) (ha : i.attr = some a) (s : Span)
    (hs : d.span? i.scope = some s) (n : Nat) : (i.plan d).1.Deletes n ↔ i.Removes d n := by
  unfold plan Removes drops
  rw [ha]
  simp only [hs, Option.some.injEq, exists_eq_left']
  cases i.presence with
  | present =>
    cases i.exclusive with
    | true => simp [s.deletes_replaceValues]
    | false => simp [s.deletes_addValues]
  | absent =>
    cases i.exclusive with
    | true => simp [deletes_dropPlaces]
    | false =>
      simp only [Bool.false_eq_true, if_false, deletes_dropPlaces, List.mem_filter]
      constructor
      · rintro ⟨p, ⟨hp, hv⟩, hn⟩
        exact ⟨p, hp, hn, hv⟩
      · rintro ⟨p, hp, hn, hv⟩
        exact ⟨p, ⟨hp, hv⟩, hn⟩

theorem deletes_plan (n : Nat) : (i.plan d).1.Deletes n ↔ i.Removes d n := by
  cases hs : d.span? i.scope with
  | none =>
    have hdel := i.deletes_plan_of_span?_eq_none d hs n
    exact iff_of_false hdel (i.not_removes_of_span?_eq_none d hs n)
  | some s =>
    cases ha : i.attr with
    | none => exact i.deletes_plan_of_scope d ha s hs n
    | some a => exact i.deletes_plan_of_attr d a ha s hs n

theorem insertedAt_appendStanza (x : Scope) (body : List Line) (n : Nat) :
    (Patch.appendStanza ∅ d x body).insertedAt n =
      if n = d.lines.length then
        match x with
        | .top => []
        | .stanza name => gap d ++ .header name :: body
      else [] := by
  unfold Patch.appendStanza
  cases x with
  | top =>
    rw [Patch.insertedAt_empty]
    exact (ite_self _).symm
  | stanza name =>
    rw [Patch.insertedAt_insert, Patch.insertedAt_empty, List.nil_append]
    simp only [eq_comm (a := n)]
    rfl

theorem attrLines_of_attr_eq_none (ha : i.attr = none) : i.attrLines d = [] := by
  unfold attrLines
  rw [ha]

/-- A scope that is not there is made behind all lines. -/
theorem insertLine_of_span?_eq_none (hs : d.span? i.scope = none) :
    i.insertLine d = d.lines.length := by
  unfold insertLine
  rw [hs]

/-- An attribute of a scope that is not there gets all that is desired. -/
theorem attrLines_of_span?_eq_none (hs : d.span? i.scope = none) (hp : i.presence = .present)
    (a : Text) (ha : i.attr = some a) : i.attrLines d = i.desired.map (Line.attribute a) := by
  have hvalues := d.values_of_notMem_scopes i.scope a ((d.span?_eq_none_iff _).1 hs)
  unfold attrLines missing
  rw [ha, hp]
  simp only [hvalues, List.not_mem_nil, not_false_eq_true, decide_true, List.filter_true]

theorem insertedAt_plan_of_span?_eq_none (hs : d.span? i.scope = none) (n : Nat) :
    (i.plan d).1.insertedAt n = if n = i.insertLine d then i.newLines d else [] := by
  have hlines := i.attrLines_of_span?_eq_none d hs
  unfold plan insertLine newLines
  rw [hs]
  cases hp : i.presence with
  | absent =>
    rw [Patch.insertedAt_empty]
    exact (ite_self _).symm
  | present =>
    cases ha : i.attr with
    | none =>
      simp only [insertedAt_appendStanza, i.attrLines_of_attr_eq_none d ha]
      cases i.scope <;> rfl
    | some a =>
      simp only [insertedAt_appendStanza, hlines hp a ha]
      cases i.scope <;> rfl

theorem insertedAt_plan_of_span?_eq_some (s : Span) (hs : d.span? i.scope = some s) (n : Nat) :
    (i.plan d).1.insertedAt n = if n = i.insertLine d then i.newLines d else [] := by
  unfold plan insertLine newLines attrLines
  rw [hs]
  cases i.attr with
  | none =>
    simp only [ite_self]
    cases i.presence with
    | present => exact Patch.insertedAt_empty n
    | absent => exact s.insertedAt_remove d n
  | some a =>
    simp only [d.values_of_span? _ a s hs]
    unfold missing
    cases hp : i.presence with
    | absent =>
      simp only [List.map_nil, ite_self]
      split <;> exact insertedAt_dropPlaces _ n
    | present =>
      cases he : i.exclusive with
      | true => exact s.insertedAt_replaceValues a i hp he n
      | false =>
        have hline : i.attrLineIn s a = s.appendLine := by
          unfold attrLineIn
          cases s.occurrences a <;> simp [he]
        rw [hline]
        exact s.insertedAt_addValues a i.desired n

theorem insertedAt_plan (n : Nat) : (i.plan d).1.insertedAt n =
    if n = i.insertLine d then i.newLines d else [] := by
  cases hs : d.span? i.scope with
  | none => exact i.insertedAt_plan_of_span?_eq_none d hs n
  | some s => exact i.insertedAt_plan_of_span?_eq_some d s hs n

theorem isEmpty_plan_iff :
    (i.plan d).1.IsEmpty ↔ (∀ n, ¬ i.Removes d n) ∧ i.newLines d = [] := by
  rw [Patch.isEmpty_iff]
  simp only [i.deletes_plan d, i.insertedAt_plan d]
  apply and_congr_right
  intro _
  constructor
  · intro h
    have := h (i.insertLine d)
    rwa [if_pos rfl] at this
  · intro h n
    rw [h, ite_self]

theorem edit_eq_self (hr : ∀ n, ¬ i.Removes d n) (hn : i.newLines d = []) : i.edit d = d :=
  (i.plan d).1.apply_of_isEmpty d ((i.isEmpty_plan_iff d).2 ⟨hr, hn⟩)

/-- The lines that stay, parted by the new ones. -/
theorem lines_edit (h : i.insertLine d ≤ d.lines.length) : (i.edit d).lines =
    (i.plan d).1.remaining 0 (d.lines.take (i.insertLine d)) ++ i.newLines d ++
      (i.plan d).1.remaining (i.insertLine d) (d.lines.drop (i.insertLine d)) := by
  have hsplice := (i.plan d).1.splice_of_insertedAt (i.insertLine d) (i.newLines d) 0 d.lines
    (i.insertedAt_plan d) (Nat.zero_le _) (by omega)
  rw [Nat.sub_zero] at hsplice
  unfold edit
  rw [Patch.lines_apply, hsplice]

/-- An edit that takes no line writes its new ones in one block. -/
theorem lines_edit_of_not_removes (h : i.insertLine d ≤ d.lines.length)
    (hkept : ∀ n, ¬ i.Removes d n) : (i.edit d).lines =
      d.lines.take (i.insertLine d) ++ i.newLines d ++ d.lines.drop (i.insertLine d) := by
  have hstays : ∀ n ls, (i.plan d).1.remaining n ls = ls := by
    intro n ls
    apply (i.plan d).1.remaining_eq_self
    intro m _
    rw [i.deletes_plan d]
    exact hkept _
  rw [i.lines_edit d h, hstays, hstays]

/-- Without new lines only the remaining ones are left. -/
theorem lines_edit_of_newLines_eq_nil (hn : i.newLines d = []) :
    (i.edit d).lines = (i.plan d).1.remaining 0 d.lines := by
  unfold edit
  rw [Patch.lines_apply]
  apply Patch.splice_of_insertedAt_eq_nil
  intro m _
  rw [i.insertedAt_plan d, hn, ite_self]

end Intent

end Stanzas
