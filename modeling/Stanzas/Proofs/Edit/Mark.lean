import Mathlib.Data.List.Basic
import Stanzas.Proofs.Edit

/-!
# Where a byte-order mark comes back

Reading takes one mark off a text, so an edit can write a text that starts with a mark again: the
text had several, or the line that becomes the first one starts with a mark, or the attribute that
is written in front of the document has a name that does. There is no other way
(`head?_text_apply_eq_mark_iff`).
-/

namespace Stanzas

namespace Intent

variable (i : Intent) (d : Document)

/-- Whether the new lines of an edit are the first ones of the document: those of an attribute of
the top level, if that has no attribute yet or its first line is a value that goes like all others. -/
def WritesInFront : Prop :=
  i.scope = .top ∧ i.presence = .present ∧ ∃ a, i.attr = some a ∧
    ((∀ b, d.values .top b = []) ∨
      i.exclusive = true ∧ (∃ l ∈ d.lines.head?, ∃ v, l.kind = .attribute a v) ∧
        ∀ v ∈ d.values .top a, v ∉ i.desired)

/-- Whether a line is the first one of those that the edit leaves. -/
def IsFirstLeft (l : Line) : Prop :=
  ∃ n, d.lines[n]? = some l ∧ ¬ i.Removes d n ∧ ∀ m, m < n → i.Removes d m

theorem head?_remaining_plan_eq_some_iff (l : Line) :
    ((i.plan d).1.remaining 0 d.lines).head? = some l ↔ i.IsFirstLeft d l := by
  rw [Patch.head?_remaining_eq_some_iff]
  unfold IsFirstLeft
  simp only [i.deletes_plan d, Nat.zero_add]

/-- A line that is left in front of the new ones keeps them from the front of the document. -/
theorem head?_lines_edit_of_not_removes (n : Nat) (hn : n < i.insertLine d)
    (hkeep : ¬ i.Removes d n) :
    (i.edit d).lines.head? = ((i.plan d).1.remaining 0 d.lines).head? := by
  have hle := i.insertLine_le_length d
  have hfront : (i.plan d).1.remaining 0 (d.lines.take (i.insertLine d)) ≠ [] := by
    intro hnil
    rw [Patch.remaining_eq_nil_iff] at hnil
    have hdel := hnil n (by rw [List.length_take]; omega)
    rw [i.deletes_plan d, Nat.zero_add] at hdel
    exact hkeep hdel
  have hsplit : (i.plan d).1.remaining 0 d.lines =
      (i.plan d).1.remaining 0 (d.lines.take (i.insertLine d)) ++
        (i.plan d).1.remaining (0 + (d.lines.take (i.insertLine d)).length)
          (d.lines.drop (i.insertLine d)) := by
    rw [← Patch.remaining_append, List.take_append_drop]
  rw [i.lines_edit d hle, hsplit, List.append_assoc, List.head?_append_of_ne_nil _ hfront,
    List.head?_append_of_ne_nil _ hfront]

/-! ## New attributes -/

section
variable (a : Text) (ha : i.attr = some a) (s : Span) (hs : d.span? i.scope = some s)
  (hp : i.presence = .present)

include ha hs hp

/-- The condition in terms of places. -/
theorem writesInFront_iff : i.WritesInFront d ↔ i.scope = .top ∧ (s.places = [] ∨
    i.exclusive = true ∧ (∃ p ∈ s.occurrences a, p.line = 0) ∧
      ∀ p ∈ s.occurrences a, p.value ∉ i.desired) := by
  unfold WritesInFront
  apply and_congr_right
  intro htop
  rw [htop] at hs
  have hdesired : (∀ v ∈ d.values .top a, v ∉ i.desired) ↔
      ∀ p ∈ s.occurrences a, p.value ∉ i.desired := by
    rw [d.values_of_span? _ a s hs, ← s.map_value_occurrences]
    exact List.forall_mem_map
  have hplaces : (∀ b, d.values .top b = []) ↔ s.places = [] := by
    rw [s.places_eq_nil_iff]
    simp only [fun b => d.values_of_span? _ b s hs]
  simp only [hp, ha, Option.some.injEq, exists_eq_left', true_and, hplaces, hdesired,
    d.exists_occurrence_zero_iff s hs a]

theorem insertLine_of_writesInFront (h : i.WritesInFront d) : i.insertLine d = 0 := by
  obtain ⟨htop, h⟩ := (i.writesInFront_iff d a ha s hs hp).1 h
  rw [i.insertLine_of_attr a s d ha hs]
  rcases h with hnil | ⟨he, ⟨q, hq, hzero⟩, hgone⟩
  · have hocc : s.occurrences a = [] := by
      unfold Span.occurrences
      rw [hnil]
      rfl
    have hline : i.attrLineIn s a = s.appendLine := by
      unfold attrLineIn
      rw [hocc]
    rw [hline]
    unfold Span.appendLine Span.lastAttribute?
    rw [hnil]
    rw [htop, d.span?_top] at hs
    obtain rfl := Option.some.inj hs
    rfl
  · rcases i.attrLineIn_eq s a with ⟨-, hno⟩ | ⟨-, ⟨p, hp, -, hv⟩ | ⟨p, -, heq, hall⟩⟩
    · rcases hno with hno | hno
      · rw [hno] at hq
        cases hq
      · exact absurd ⟨hp, he⟩ hno
    · exact absurd hv (hgone p hp)
    · have := (hall q hq).1
      omega

/-- Values that are only added take no line away. -/
theorem not_removes_of_adding (hno : s.occurrences a = [] ∨
    ¬ (i.presence = .present ∧ i.exclusive = true)) (n : Nat) : ¬ i.Removes d n := by
  rw [i.removes_iff_of_attr a s d ha hs]
  rintro ⟨q, hq, -, hdrops⟩
  rcases hno with hno | hno
  · rw [hno] at hq
    cases hq
  · unfold drops at hdrops
    rw [hp] at hdrops
    cases he : i.exclusive with
    | true => exact hno ⟨hp, he⟩
    | false =>
      rw [he] at hdrops
      cases hdrops

/-- Otherwise some line is left in front of the new ones. -/
theorem exists_not_removes_of_not_writesInFront (h : ¬ i.WritesInFront d) :
    ∃ n, n < i.insertLine d ∧ ¬ i.Removes d n := by
  rw [i.writesInFront_iff d a ha s hs hp] at h
  rw [i.insertLine_of_attr a s d ha hs]
  obtain ⟨pre, post, hd, -, hscope, -⟩ := d.sections_of_span? _ s hs
  have hproper : s.Proper := d.areSections_sections.proper s.toSection (by simp [hd])
  rcases i.attrLineIn_eq s a with ⟨heq, hno⟩ | ⟨hx, ⟨p, hocc, heq, hv⟩ | ⟨p, hocc, heq, hall⟩⟩
  · -- nothing goes, and the new lines are behind a header or an attribute
    refine ⟨0, ?_, i.not_removes_of_adding d a ha s hs hp hno 0⟩
    rw [heq]
    by_contra hzero
    refine h ⟨?_, Or.inl ?_⟩
    · by_contra htop
      have := s.start_lt_appendLine hproper (by rwa [hscope])
      omega
    · rw [List.eq_nil_iff_forall_not_mem]
      intro q hq
      have := s.line_lt_appendLine q hq
      omega
  · -- the value that stays is in front
    refine ⟨p.line, by omega, ?_⟩
    rw [i.removes_iff_of_attr a s d ha hs]
    rintro ⟨q, hq, hline, hdrops⟩
    have hplace := ((s.mem_occurrences_iff a p).1 hocc).1
    rw [s.eq_of_line_eq q p ((s.mem_occurrences_iff a q).1 hq).1 hplace hline] at hdrops
    unfold drops at hdrops
    rw [hx.1, hx.2] at hdrops
    exact of_decide_eq_true hdrops hv
  · -- the first line is not one of the attribute
    have hpos : p.line ≠ 0 := by
      intro hzero
      refine h ⟨?_, Or.inr ⟨hx.2, ⟨p, hocc, hzero⟩, fun q hq => (hall q hq).2⟩⟩
      by_contra htop
      have := s.start_lt_line hproper (by rwa [hscope]) p ((s.mem_occurrences_iff a p).1 hocc).1
      omega
    refine ⟨0, by omega, ?_⟩
    rw [i.removes_iff_of_attr a s d ha hs]
    rintro ⟨q, hq, hline, -⟩
    have := (hall q hq).1
    omega

end

/-! ## The first line -/

theorem head?_lines_edit_of_writesInFront (hv : i.Valid) (h : i.WritesInFront d) :
    ∃ a v, i.attr = some a ∧ (i.edit d).lines.head? = some (.attribute a v) := by
  obtain ⟨htop, hp, a, ha, hcond⟩ := id h
  obtain ⟨s, hs⟩ := Option.isSome_iff_exists.1 d.isSome_span?_top
  rw [← htop] at hs
  have hzero := i.insertLine_of_writesInFront d a ha s hs hp h
  have hne := hv.desired_ne_nil (by rw [ha]; exact Option.some_ne_none a) hp
  obtain ⟨v, vs, hdesired⟩ := List.exists_cons_of_ne_nil hne
  -- no desired value is there already
  have hnew : i.missing (s.values a) = v :: vs := by
    unfold missing
    rw [hp]
    show i.desired.filter _ = _
    rw [← hdesired, List.filter_eq_self]
    intro w hw
    apply decide_eq_true
    rw [← d.values_of_span? _ a s hs, htop]
    rcases hcond with hnil | ⟨-, -, hgone⟩
    · rw [hnil]
      exact List.not_mem_nil
    · exact fun hmem => hgone w hmem hw
  refine ⟨a, v, ha, ?_⟩
  rw [i.lines_edit d (i.insertLine_le_length d), hzero, i.newLines_of_attr a s d ha hs, hnew]
  rfl

/-- Other new lines have a line in front of them, unless they are a stanza that is written to a
document without lines. -/
theorem exists_not_removes_of_newLines_ne_nil (h : ¬ i.WritesInFront d) (hnew : i.newLines d ≠ [])
    (hne : d.span? i.scope = none → d.lines ≠ []) :
    ∃ n, n < i.insertLine d ∧ ¬ i.Removes d n := by
  cases hs : d.span? i.scope with
  | none =>
    refine ⟨0, ?_, i.not_removes_of_span?_eq_none d hs 0⟩
    unfold insertLine
    rw [hs]
    exact List.length_pos_iff.2 (hne hs)
  | some s =>
    unfold newLines at hnew
    rw [hs] at hnew
    unfold attrLines missing at hnew
    cases ha : i.attr with
    | none =>
      rw [ha] at hnew
      exact absurd rfl hnew
    | some a =>
      cases hp : i.presence with
      | absent =>
        rw [ha, hp] at hnew
        exact absurd rfl hnew
      | present => exact i.exists_not_removes_of_not_writesInFront d a ha s hs hp h

/-- That stanza comes after a blank line. -/
theorem head?_lines_edit_of_lines_eq_nil (hs : d.span? i.scope = none) (hnil : d.lines = [])
    (hnew : i.newLines d ≠ []) : (i.edit d).lines.head? = some .blank := by
  have hp : i.presence = .present := by
    cases hp : i.presence with
    | present => rfl
    | absent =>
      unfold newLines at hnew
      rw [hs, hp] at hnew
      exact absurd rfl hnew
  obtain ⟨name, -, he⟩ := i.lines_edit_of_missing d hs hp
  have hgap : gap d = [.blank] := by
    unfold gap
    rw [hnil]
    rfl
  rw [he, hnil, hgap]
  rfl

theorem head?_lines_edit_of_not_writesInFront (h : ¬ i.WritesInFront d) (l : Line)
    (hl : l ≠ .blank) : (i.edit d).lines.head? = some l ↔ i.IsFirstLeft d l := by
  rw [← i.head?_remaining_plan_eq_some_iff d l]
  by_cases hnew : i.newLines d = []
  · rw [i.lines_edit_of_newLines_eq_nil d hnew]
  by_cases hempty : d.span? i.scope = none ∧ d.lines = []
  · obtain ⟨hs, hnil⟩ := hempty
    rw [i.head?_lines_edit_of_lines_eq_nil d hs hnil hnew, hnil]
    refine iff_of_false ?_ ?_
    · intro e
      exact hl (Option.some.inj e).symm
    · intro e
      cases e
  · obtain ⟨n, hn, hkeep⟩ := i.exists_not_removes_of_newLines_ne_nil d h hnew
      fun hs hnil => hempty ⟨hs, hnil⟩
    rw [i.head?_lines_edit_of_not_removes d n hn hkeep]

/-! ## Marks -/

/-- The text of an edit starts with a mark if the name of the attribute in front does, or the first
line that is left of the file. -/
theorem head?_text_apply_eq_mark_iff (style : Style) (t : Text) (w : Draft)
    (hw : w.check = .ok i) : (i.apply style t).text.head? = some byteOrderMark ↔
      (i.WritesInFront (.read t) ∧ ∃ a ∈ i.attr, a.head? = some byteOrderMark) ∨
        ¬ i.WritesInFront (.read t) ∧ ∃ raw, i.IsFirstLeft (.read t) (.kept raw) ∧
          raw.head? = some byteOrderMark := by
  have hv := w.valid_of_check i hw
  rw [text_apply, Document.head?_render_eq_mark_iff]
  by_cases h : i.WritesInFront (.read t)
  · obtain ⟨a, v, ha, hhead⟩ := i.head?_lines_edit_of_writesInFront _ hv h
    have hname : ((Line.attribute a v).render style false).head? = a.head? := by
      show ([] ++ a ++ _).head? = a.head?
      rw [List.nil_append, List.head?_append_of_ne_nil _ (hv.attr a ha).ne_nil]
    simp only [h, hhead, ha, true_and, not_true, false_and, or_false, Option.mem_def,
      Option.some.injEq, exists_eq_left']
    rw [← hname]
    rfl
  · have hfirst := i.head?_lines_edit_of_not_writesInFront (.read t) h
    simp only [h, false_and, false_or, not_false_eq_true, true_and]
    constructor
    · rintro ⟨l, hl, hmark⟩
      have hblank : l ≠ .blank := by
        rintro rfl
        cases hmark
      have hleft := (hfirst l hblank).1 hl
      obtain ⟨n, hn, -⟩ := id hleft
      obtain ⟨raw, -, rfl⟩ := List.mem_map.1 (List.mem_of_getElem? hn)
      exact ⟨raw, hleft, hmark⟩
    · rintro ⟨raw, hraw, hmark⟩
      exact ⟨.kept raw, (hfirst _ (by simp)).2 hraw, hmark⟩

theorem head?_text_apply_eq_mark_of_two :
    Draft.check { scope := .top, attr := some ['b'], presence := .absent } =
        .ok ⟨.top, some ['b'], [], .absent, true, false⟩ ∧
      (apply ⟨.top, some ['b'], [], .absent, true, false⟩ .spaced
        [byteOrderMark, byteOrderMark, 'a', ' ', '=', ' ', '1', '\n']).text.head? =
          some byteOrderMark := by
  refine ⟨rfl, (head?_text_apply_eq_mark_iff _ .spaced
    [byteOrderMark, byteOrderMark, 'a', ' ', '=', ' ', '1', '\n']
    { scope := .top, attr := some ['b'], presence := .absent } rfl).2 (Or.inr ⟨?_, ?_⟩)⟩
  · rintro ⟨-, hp, -⟩
    cases hp
  · refine ⟨[byteOrderMark, 'a', ' ', '=', ' ', '1'], ⟨0, rfl, ?_, ?_⟩, rfl⟩
    · rw [← deletes_plan]
      decide
    · intro m hm
      exact absurd hm (Nat.not_lt_zero m)

/-- Of two marks one is left. -/
theorem not_forall_head?_text_apply_ne_mark :
    ¬ ∀ (w : Draft) (i : Intent) (style : Style) (t : Text), w.check = .ok i →
      (i.apply style t).text.head? ≠ some byteOrderMark := by
  intro h
  exact h { scope := .top, attr := some ['b'], presence := .absent } _ .spaced
    [byteOrderMark, byteOrderMark, 'a', ' ', '=', ' ', '1', '\n'] rfl (by decide)

end Intent

end Stanzas
