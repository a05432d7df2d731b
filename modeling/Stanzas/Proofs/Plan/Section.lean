import Mathlib.Data.List.Basic
import Stanzas.Proofs.Plan.Attribute
import Stanzas.Proofs.Scope.Range

/-!
# Edits of one section

Which lines an attribute of a section loses and gets depends on that section alone, not on where it
stands (`rewrite_congr`). So an edit of an attribute puts a new section in the place of the old one,
the first of its scope, wherever a document has it, and leaves the end of the document as it was
unless this section is the last one and the edit reaches its end (`edit_of_sections`). The section
is found again where it was, and the new lines in it (`mem_occurrences_edit_of_attr`).
-/

namespace Stanzas

/-! ## Spans of one section -/

/-- A place some lines further down. -/
def Place.shift (m : Nat) (p : Place) : Place := { p with line := m + p.line }

/-- A span some lines further down. -/
def Span.shift (m : Nat) (s : Span) : Span := { s with start := m + s.start }

namespace Span

variable (m : Nat) (s : Span) (a : Text)

theorem places_shift : (s.shift m).places = s.places.map (Place.shift m) := by
  unfold places shift
  simp only
  generalize s.start = n
  induction s.lines generalizing n with
  | nil => rfl
  | cons l ls ih =>
    have hls := ih (n + 1)
    rw [← Nat.add_assoc] at hls
    rw [List.zipIdx_cons, List.zipIdx_cons, List.filterMap_cons, List.filterMap_cons]
    cases l.attribute? with
    | none => exact hls
    | some b =>
      simp only [Option.map_some, List.map_cons, hls]
      rfl

theorem occurrences_shift : (s.shift m).occurrences a = (s.occurrences a).map (Place.shift m) := by
  unfold occurrences
  rw [places_shift, List.filter_map]
  rfl

theorem appendLine_shift : (s.shift m).appendLine = m + s.appendLine := by
  unfold appendLine lastAttribute?
  rw [places_shift, List.getLast?_map]
  cases s.places.getLast? with
  | some p => rfl
  | none =>
    cases hx : s.scope with
    | top => simp [shift, hx]
    | stanza name =>
      simp only [shift, hx, Option.map_none]
      exact Nat.add_assoc m s.start 1

end Span

namespace Intent

variable (i : Intent) (m : Nat) (s : Span) (a : Text)

theorem attrLineIn_shift : i.attrLineIn (s.shift m) a = m + i.attrLineIn s a := by
  have hkept : ∀ ps : List Place, (ps.map (Place.shift m)).filter (·.value ∈ i.desired) =
      (ps.filter (·.value ∈ i.desired)).map (Place.shift m) := fun ps => List.filter_map
  unfold attrLineIn
  rw [Span.occurrences_shift, Span.appendLine_shift]
  cases s.occurrences a with
  | nil => rfl
  | cons first rest =>
    have hlast := congrArg List.getLast? (hkept (first :: rest))
    rw [List.getLast?_map] at hlast
    simp only [List.map_cons] at hlast ⊢
    rw [hlast]
    split
    · cases ((first :: rest).filter (·.value ∈ i.desired)).getLast? with
      | none => rfl
      | some p => exact Nat.add_assoc m p.line 1
    · rfl

/-- Whether an edit of an attribute writes or takes the last line of a section. -/
def ReachesEnd : Prop :=
  i.missing (s.values a) ≠ [] ∧ i.attrLineIn s a = s.stop ∨ ∃ l ∈ s.lines.getLast?, i.takes a l

variable (t : Span) (h : s.toSection = t.toSection)

include h

/-- Spans of one section are shifted against each other. -/
theorem attrLineIn_congr : i.attrLineIn s a + t.start = i.attrLineIn t a + s.start := by
  have hs : i.attrLineIn s a = s.start + i.attrLineIn ⟨s.toSection, 0⟩ a :=
    i.attrLineIn_shift s.start ⟨s.toSection, 0⟩ a
  have ht : i.attrLineIn t a = t.start + i.attrLineIn ⟨s.toSection, 0⟩ a := by
    rw [h]
    exact i.attrLineIn_shift t.start ⟨t.toSection, 0⟩ a
  omega

theorem rewrite_congr : i.rewrite s a = i.rewrite t a := by
  have hline := i.attrLineIn_congr s a t h
  have hs := i.start_le_attrLineIn s a
  have ht := i.start_le_attrLineIn t a
  have hk : i.attrLineIn s a - s.start = i.attrLineIn t a - t.start := by omega
  unfold rewrite
  rw [hk, h]

theorem reachesEnd_congr : i.ReachesEnd s a ↔ i.ReachesEnd t a := by
  have hline := i.attrLineIn_congr s a t h
  have hstop : i.attrLineIn s a = s.stop ↔ i.attrLineIn t a = t.stop := by
    unfold Span.stop
    rw [h]
    omega
  unfold ReachesEnd
  rw [hstop, h]

end Intent

/-! ## The span of a section -/

/-- The first section of a scope is found, with the number of lines before it. -/
theorem Document.span?_of_sections (d : Document) (pre post : List Section) (s : Section)
    (hd : d.sections = pre ++ s :: post) (hpre : ∀ u ∈ pre, u.scope ≠ s.scope) :
    d.span? s.scope = some ⟨s, (pre.flatMap Section.lines).length⟩ := by
  have key : ∀ n, (spansFrom n (pre ++ s :: post)).find? (·.scope = s.scope) =
      some ⟨s, n + (pre.flatMap Section.lines).length⟩ := by
    clear hd
    induction pre with
    | nil =>
      intro n
      exact List.find?_cons_of_pos (decide_eq_true rfl)
    | cons u pre ih =>
      intro n
      have hu : u.scope ≠ s.scope := hpre u List.mem_cons_self
      rw [List.cons_append, spansFrom, List.find?_cons_of_neg (by simpa using hu),
        ih (fun v hv => hpre v (List.mem_cons_of_mem u hv)), List.flatMap_cons, List.length_append,
        Nat.add_assoc]
  unfold span? spans
  rw [hd, key 0, Nat.zero_add]

/-! ## The edited document -/

namespace Intent

variable (i : Intent) (a : Text) (s : Span) (d : Document) (ha : i.attr = some a)
  (hs : d.span? i.scope = some s) (pre post : List Section)
  (hd : d.sections = pre ++ s.toSection :: post)
  (hstart : s.start = (pre.flatMap Section.lines).length)

include ha hs hd hstart

theorem removes_last_iff : 0 < d.lines.length ∧ i.Removes d (d.lines.length - 1) ↔
    post = [] ∧ ∃ l ∈ s.lines.getLast?, i.takes a l := by
  obtain ⟨hle, hlast⟩ := d.stop_le_length s pre post hd hstart
  have hstop : s.stop = s.start + s.lines.length := rfl
  constructor
  · rintro ⟨hpos, hgone⟩
    obtain ⟨hstart', hlt⟩ := i.start_le_of_removes a s d ha hs _ hgone
    have heq : s.start + (s.lines.length - 1) = d.lines.length - 1 := by omega
    have hl : s.lines[s.lines.length - 1]? = some s.lines[s.lines.length - 1] :=
      List.getElem?_eq_getElem (by omega)
    refine ⟨hlast.1 (by omega), _, List.getLast?_eq_getElem?.trans hl, ?_⟩
    exact (i.removes_iff_takes a s d ha hs _ _ hl).1 (heq ▸ hgone)
  · rintro ⟨hnil, l, hl, htakes⟩
    have hend := hlast.2 hnil
    have hpos : 0 < s.lines.length := List.length_pos_of_mem (List.mem_of_getLast? hl)
    have heq : s.start + (s.lines.length - 1) = d.lines.length - 1 := by omega
    rw [List.getLast?_eq_getElem?] at hl
    exact ⟨by omega, heq ▸ (i.removes_iff_takes a s d ha hs _ l hl).2 htakes⟩

theorem touchesEnd_plan_iff :
    (i.plan d).1.TouchesEnd d.lines.length ↔ post = [] ∧ i.ReachesEnd s a := by
  obtain ⟨hle, hlast⟩ := d.stop_le_length s pre post hd hstart
  have hproper := Document.proper_of_sections d s pre post hd
  have hline := i.attrLineIn_le_stop s a hproper
  unfold Patch.TouchesEnd ReachesEnd
  rw [i.insertedAt_plan d, i.deletes_plan d, i.insertLine_of_attr a s d ha hs,
    i.newLines_of_attr a s d ha hs, i.removes_last_iff a s d ha hs pre post hd hstart, and_or_left]
  apply or_congr_left
  by_cases heq : d.lines.length = i.attrLineIn s a
  · have hstop : i.attrLineIn s a = s.stop := by omega
    rw [if_pos heq, and_iff_right (hlast.1 (by omega)), and_iff_left hstop, ne_eq,
      List.map_eq_nil_iff]
  · rw [if_neg heq]
    refine iff_of_false (fun h => h rfl) ?_
    rintro ⟨hnil, -, hstop⟩
    have := hlast.2 hnil
    omega

theorem ended_edit_of_attr : (i.edit d).ended = true ↔
    d.ended = true ∨ post = [] ∧ i.ReachesEnd s a := by
  obtain ⟨hle, -⟩ := d.stop_le_length s pre post hd hstart
  rw [← i.touchesEnd_plan_iff a s d ha hs pre post hd hstart]
  apply (i.plan d).1.ended_apply_iff d
  · intro n hn
    rw [i.deletes_plan d] at hn
    have := i.start_le_of_removes a s d ha hs n hn
    omega
  · exact i.le_length_of_insertedAt d

end Intent

/-- The section stands for itself here, as if it were the first one. -/
theorem Intent.edit_of_sections (i : Intent) (a : Text) (ha : i.attr = some a) (d : Document)
    (pre post : List Section) (s : Section) (hd : d.sections = pre ++ s :: post)
    (hscope : s.scope = i.scope) (hpre : ∀ u ∈ pre, u.scope ≠ i.scope) :
    (i.edit d).sections = pre ++ i.rewrite ⟨s, 0⟩ a :: post ∧
      ((i.edit d).ended = true ↔ d.ended = true ∨ post = [] ∧ i.ReachesEnd ⟨s, 0⟩ a) := by
  have hs := d.span?_of_sections pre post s hd (hscope ▸ hpre)
  rw [hscope] at hs
  constructor
  · rw [i.rewrite_congr ⟨s, 0⟩ a ⟨s, (pre.flatMap Section.lines).length⟩ rfl]
    exact i.sections_edit_of_sections a _ d ha hs pre post hd rfl
  · rw [i.reachesEnd_congr ⟨s, 0⟩ a ⟨s, (pre.flatMap Section.lines).length⟩ rfl]
    exact i.ended_edit_of_attr a _ d ha hs pre post hd rfl

/-- The edited section stands where the old one stood. -/
theorem Intent.span?_edit_of_attr (i : Intent) (a : Text) (ha : i.attr = some a) (d : Document)
    (s : Span) (hs : d.span? i.scope = some s) :
    (i.edit d).span? i.scope = some ⟨i.rewrite s a, s.start⟩ := by
  obtain ⟨pre, post, hd, hstart, hscope, hpre⟩ := d.sections_of_span? _ s hs
  have he := i.sections_edit_of_sections a s d ha hs pre post hd hstart
  have hspan := (i.edit d).span?_of_sections pre post _ he fun u hu => hscope ▸ hpre u hu
  rw [← hstart] at hspan
  exact hscope ▸ hspan

/-- What is new is found again as attributes of the edited section. -/
theorem Intent.mem_occurrences_edit_of_attr (i : Intent) (a : Text) (ha : i.attr = some a)
    (d : Document) (s : Span) (hs : d.span? i.scope = some s) (r : Nat) (v : Option Text)
    (hv : (i.missing (s.values a))[r]? = some v) :
    ⟨((i.plan d).1.remaining 0 (d.lines.take (i.attrLineIn s a))).length + r, a, v⟩ ∈
      (⟨i.rewrite s a, s.start⟩ : Span).occurrences a := by
  obtain ⟨pre, post, hd, hstart, -⟩ := d.sections_of_span? _ s hs
  have hproper := Document.proper_of_sections d s pre post hd
  have hfront := i.remaining_front_of_attr a s d ha hs pre post hd hstart hproper
  rw [Span.mem_occurrences_iff, Span.mem_places_iff, hfront, List.length_append, ← hstart]
  refine ⟨⟨by simp only; omega, .attribute a v, ?_, rfl⟩, rfl⟩
  unfold rewrite
  simp only
  rw [Nat.add_assoc, Nat.add_sub_cancel_left, List.append_assoc,
    List.getElem?_append_right (Nat.le_add_right _ r), Nat.add_sub_cancel_left,
    List.getElem?_append_left, List.getElem?_map, hv, Option.map_some]
  rw [List.length_map]
  exact (List.getElem?_eq_some_iff.1 hv).1

end Stanzas
