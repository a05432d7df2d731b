import Mathlib.Data.List.Perm.Basic
import Stanzas.Proofs.Intent.NormalForm
import Stanzas.Proofs.Plan.Holds
import Stanzas.Proofs.Plan.Reason

/-!
# Values in another order

Of the values of an intent only the set counts. In another order, and with repetitions, they make a
plan for the same reason that deletes the same lines, and writes as many lines in the same place, in
another order at most (`Patch.Reorders`). Once one of two such intents holds, the other one has
nothing to do:

    (i.reorder vs).Holds d ↔ i.Holds d                                         (holds_reorder_iff)
-/

namespace Stanzas

/-- Patches that delete the same lines and insert in one place, behind the same lines if any, the
same values of an attribute in some order each. -/
structure Patch.Reorders (p q : Patch) (a : Text) : Prop where
  deletes_iff : ∀ n, p.Deletes n ↔ q.Deletes n
  insertedAt_eq : ∃ (k : Nat) (front : List Line) (us vs : List (Option Text)), us.Perm vs ∧
    (∀ n, p.insertedAt n = if n = k then front ++ us.map (Line.attribute a) else []) ∧
    ∀ n, q.insertedAt n = if n = k then front ++ vs.map (Line.attribute a) else []

namespace Intent

/-- The intent with other values. -/
def reorder (i : Intent) (vs : List Text) : Intent := { i with values := vs }

section
variable (i : Intent) (vs : List Text)

@[simp]
theorem scope_reorder : (i.reorder vs).scope = i.scope := rfl

@[simp]
theorem attr_reorder : (i.reorder vs).attr = i.attr := rfl

@[simp]
theorem values_reorder : (i.reorder vs).values = vs := rfl

@[simp]
theorem presence_reorder : (i.reorder vs).presence = i.presence := rfl

@[simp]
theorem exclusive_reorder : (i.reorder vs).exclusive = i.exclusive := rfl

@[simp]
theorem allowNoValue_reorder : (i.reorder vs).allowNoValue = i.allowNoValue := rfl

variable (h : i.values.Perm vs)

include h

/-! ## What is desired -/

theorem perm_desired_reorder : i.desired.Perm (i.reorder vs).desired := by
  have hnil : vs = [] ↔ i.values = [] := by
    rw [← List.length_eq_zero_iff, ← List.length_eq_zero_iff, h.length_eq]
  unfold desired
  simp only [values_reorder, allowNoValue_reorder, presence_reorder, hnil]
  split
  · exact List.Perm.refl _
  · exact h.map some

theorem mem_desired_reorder_iff (v : Option Text) : v ∈ (i.reorder vs).desired ↔ v ∈ i.desired :=
  (i.perm_desired_reorder vs h).mem_iff.symm

theorem mem_named_reorder_iff (v : Option Text) :
    v ∈ (i.reorder vs).values.map some ↔ v ∈ i.values.map some :=
  (h.map some).mem_iff.symm

theorem drops_reorder (v : Option Text) : (i.reorder vs).drops v = i.drops v := by
  unfold drops
  simp only [presence_reorder, exclusive_reorder, i.mem_desired_reorder_iff vs h,
    i.mem_named_reorder_iff vs h]

theorem perm_missing_reorder (old : List (Option Text)) :
    (i.missing old).Perm ((i.reorder vs).missing old) := by
  unfold missing
  rw [presence_reorder]
  cases i.presence with
  | present => exact (i.perm_desired_reorder vs h).filter _
  | absent => exact List.Perm.refl _

/-- What holds depends on the set of the values. -/
theorem holds_reorder_iff (d : Document) : (i.reorder vs).Holds d ↔ i.Holds d := by
  have hnamed : ∀ v, v ∈ vs ↔ v ∈ i.values := fun v => h.mem_iff.symm
  unfold Holds
  simp only [scope_reorder, attr_reorder, values_reorder, presence_reorder, exclusive_reorder,
    i.mem_desired_reorder_iff vs h, hnamed]

/-! ## What a plan says of lines -/

theorem removes_reorder_iff (d : Document) (n : Nat) :
    (i.reorder vs).Removes d n ↔ i.Removes d n := by
  unfold Removes
  simp only [scope_reorder, attr_reorder, presence_reorder, i.drops_reorder vs h]

theorem deletes_plan_reorder_iff (d : Document) (n : Nat) :
    (i.plan d).1.Deletes n ↔ ((i.reorder vs).plan d).1.Deletes n := by
  rw [i.deletes_plan d, (i.reorder vs).deletes_plan d, i.removes_reorder_iff vs h]

theorem attrLineIn_reorder (s : Span) (a : Text) :
    (i.reorder vs).attrLineIn s a = i.attrLineIn s a := by
  unfold attrLineIn
  simp only [presence_reorder, exclusive_reorder, i.mem_desired_reorder_iff vs h]

theorem insertLine_reorder (d : Document) : (i.reorder vs).insertLine d = i.insertLine d := by
  unfold insertLine
  simp only [scope_reorder, attr_reorder, i.attrLineIn_reorder vs h]

theorem reasonFor_reorder (old : List (Option Text)) :
    (i.reorder vs).reasonFor old = i.reasonFor old := by
  unfold reasonFor
  simp only [presence_reorder, exclusive_reorder, i.mem_desired_reorder_iff vs h,
    i.mem_named_reorder_iff vs h]

/-! ## Plans about an attribute -/

variable (a : Text) (ha : i.attr = some a) (d : Document)

include ha

theorem snd_plan_reorder : ((i.reorder vs).plan d).2 = (i.plan d).2 := by
  cases hs : d.span? i.scope with
  | some s =>
    rw [i.snd_plan_of_attr d a ha s hs, (i.reorder vs).snd_plan_of_attr d a ha s hs,
      i.reasonFor_reorder vs h]
  | none =>
    unfold plan
    rw [scope_reorder, attr_reorder, presence_reorder, hs, ha]
    cases i.presence <;> rfl

/-- New lines are those of the attribute, behind a header and a blank line if the scope is new. -/
theorem exists_newLines_eq : ∃ (front : List Line) (us us' : List (Option Text)), us.Perm us' ∧
    i.newLines d = front ++ us.map (Line.attribute a) ∧
    (i.reorder vs).newLines d = front ++ us'.map (Line.attribute a) := by
  have hmissing := i.perm_missing_reorder vs h
  have hlines : i.attrLines d = (i.missing (d.values i.scope a)).map (Line.attribute a) := by
    unfold attrLines
    rw [ha]
  have hlines' : (i.reorder vs).attrLines d =
      ((i.reorder vs).missing (d.values i.scope a)).map (Line.attribute a) := by
    unfold attrLines
    rw [attr_reorder, scope_reorder, ha]
  unfold newLines
  rw [hlines, hlines', scope_reorder, presence_reorder]
  cases d.span? i.scope with
  | some s => exact ⟨[], _, _, hmissing _, rfl, rfl⟩
  | none =>
    cases i.presence with
    | absent => exact ⟨[], [], [], List.Perm.refl _, rfl, rfl⟩
    | present =>
      cases i.scope with
      | top => exact ⟨[], [], [], List.Perm.refl _, rfl, rfl⟩
      | stanza name =>
        exact ⟨gap d ++ [.header name], _, _, hmissing _, List.append_cons .., List.append_cons ..⟩

theorem reorders_plan_reorder : (i.plan d).1.Reorders ((i.reorder vs).plan d).1 a := by
  obtain ⟨front, us, us', hperm, hnew, hnew'⟩ := i.exists_newLines_eq vs h a ha d
  refine ⟨i.deletes_plan_reorder_iff vs h d, i.insertLine d, front, us, us', hperm, ?_, ?_⟩
  · intro n
    rw [i.insertedAt_plan d, hnew]
  · intro n
    rw [(i.reorder vs).insertedAt_plan d, i.insertLine_reorder vs h, hnew']

end

end Intent

/-! ## Drafts -/

namespace Draft

section
variable (w : Draft) (i : Intent) (hw : w.check = .ok i) (vs : List Text)
  (hvs : ∀ v, v ∈ vs.map trim ↔ v ∈ w.values.map trim)

include hw hvs

/-- Drafts that name the same values hold the same intent, in an order of its own each. -/
theorem check_of_same_values : ∃ us, i.values.Perm us ∧
    Draft.check { w with values := vs } = .ok (i.reorder us) := by
  have hn := w.normal_of_check i hw
  obtain ⟨hscope, hattr, hvalues, hp, hx, hb, hmissing⟩ := w.check_eq_ok i hw
  have hperm : i.values.Perm (vs.map trim).eraseDups := by
    rw [List.perm_ext_iff_of_nodup hn.nodup_values (nodup_eraseDups _)]
    intro v
    rw [hn.mem_values, List.mem_eraseDups, hvs]
  have hok : checkValues vs = .ok (vs.map trim).eraseDups := by
    rw [checkValues_eq_ok_iff]
    refine ⟨rfl, fun v hv => ?_⟩
    have hmem := (hvs (trim v)).1 (List.mem_map_of_mem hv)
    obtain ⟨u, hu, hutrim⟩ := List.mem_map.1 hmem
    rw [← hutrim]
    exact ((checkValues_eq_ok_iff _ _).1 hvalues).2 u hu
  have hnil : (vs.map trim).eraseDups = [] ↔ i.values = [] := by
    rw [← List.length_eq_zero_iff, ← List.length_eq_zero_iff, hperm.length_eq]
  refine ⟨_, hperm, ?_⟩
  rw [check_of_parts { w with values := vs } i.scope i.attr _ hscope hattr hok]
  simp only [hnil]
  rw [if_neg (by rwa [← hp, ← hb])]
  unfold Intent.reorder
  rw [hp, hx, hb]

/-- Whichever of the two orders an edit follows, it does what the other one asks for. -/
theorem reorders_plan (a : Text) (ha : i.attr = some a) (d : Document) :
    ∃ j, Draft.check { w with values := vs } = .ok j ∧ (j.plan d).2 = (i.plan d).2 ∧
      (i.plan d).1.Reorders (j.plan d).1 a ∧ i.Holds (j.edit d) ∧ j.Holds (i.edit d) ∧
      i.plan (j.edit d) = (∅, .unchanged) ∧ j.plan (i.edit d) = (∅, .unchanged) := by
  obtain ⟨us, hperm, hj⟩ := w.check_of_same_values i hw vs hvs
  have hvalid := w.valid_of_check i hw
  have hvalid' := valid_of_check _ _ hj
  have hback : i.Holds ((i.reorder us).edit d) :=
    (i.holds_reorder_iff us hperm _).1 ((i.reorder us).holds_edit d)
  have hforth : (i.reorder us).Holds (i.edit d) :=
    (i.holds_reorder_iff us hperm _).2 (i.holds_edit d)
  exact ⟨i.reorder us, hj, i.snd_plan_reorder us hperm a ha d,
    i.reorders_plan_reorder us hperm a ha d, hback, hforth, i.plan_of_holds _ hvalid hback,
    (i.reorder us).plan_of_holds _ hvalid' hforth⟩

end

/-- A value that comes twice is kept twice, and the bare line between goes. -/
theorem reorders_plan_of_repeated :
    let w : Draft := { scope := .stanza ['s'], attr := some ['a'], values := [['1'], ['2'], ['3']] }
    let vs : List Text := [['3'], ['2'], ['3', ' '], ['1']]
    let i : Intent := ⟨.stanza ['s'], some ['a'], [['1'], ['2'], ['3']], .present, true, false⟩
    let j : Intent := ⟨.stanza ['s'], some ['a'], [['3'], ['2'], ['1']], .present, true, false⟩
    let d := Document.read
      ['s', ':', '\n', 'a', '=', '2', '\n', 'a', '\n', 'a', '=', '2', '\n', 't', ':']
    w.check = .ok i ∧ (∀ v, v ∈ vs.map trim ↔ v ∈ w.values.map trim) ∧ i.attr = some ['a'] ∧
      Draft.check { w with values := vs } = .ok j ∧
      (i.plan d).1.insertedAt 4 = [.attribute ['a'] (some ['1']), .attribute ['a'] (some ['3'])] ∧
      (j.plan d).1.insertedAt 4 = [.attribute ['a'] (some ['3']), .attribute ['a'] (some ['1'])] ∧
      i.plan (j.edit d) = (∅, .unchanged) ∧ j.plan (i.edit d) = (∅, .unchanged) := by
  intro w vs i j d
  have hw : w.check = .ok i := by decide
  have hj : Draft.check { w with values := vs } = .ok j := by decide
  have hvs : ∀ v, v ∈ vs.map trim ↔ v ∈ w.values.map trim := by
    have hvals : vs.map trim = [['3'], ['2'], ['3'], ['1']] := by decide
    have hvals' : w.values.map trim = [['1'], ['2'], ['3']] := by decide
    intro v
    rw [hvals, hvals']
    simp only [List.mem_cons, List.not_mem_nil, or_false]
    tauto
  obtain ⟨j', hj', -, -, -, -, hback, hforth⟩ := w.reorders_plan i hw vs hvs ['a'] rfl d
  obtain rfl : j' = j := Except.ok.inj (hj'.symm.trans hj)
  exact ⟨hw, hvs, rfl, hj, by decide, by decide, hback, hforth⟩

end Draft

end Stanzas
