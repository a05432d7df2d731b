import Mathlib.Data.List.Basic
import Stanzas.Proofs.Plan
import Stanzas.Proofs.Scope.Range

/-!
# Making and removing whole scopes

A scope that is missing is made at the end of the document, and of the sections before it only the
last one grows by a blank line (`sections_edit_of_missing`). A stanza that goes takes all sections
of its name with it and no line of another one (`sections_edit_of_absent_stanza`); the top level
only loses its attributes (`sections_edit_of_absent_top`).
-/

namespace Stanzas

/-! ## Making a scope -/

/-- Lines without a header can be put behind the last section, and a stanza behind them. -/
theorem AreSections.append_stanza {init : List Section} {last : Section}
    (h : AreSections (init ++ [last])) (ls : List Line) (s : Section) (hls : NoHeader ls)
    (hs : s.Proper) (hx : s.scope ≠ .top) :
    AreSections (init ++ [⟨last.scope, last.lines ++ ls⟩, s]) := by
  have hlast : last.Proper := h.proper last (by simp)
  have hgrown := (h.replace _ (hlast.append ls hls) rfl).append s hs hx
  rwa [List.append_assoc, List.singleton_append] at hgrown

namespace Intent

variable (i : Intent) (d : Document)

theorem noHeader_attrLines : NoHeader (i.attrLines d) := by
  unfold attrLines
  cases i.attr with
  | none => exact fun l hl => absurd hl List.not_mem_nil
  | some a => exact NoHeader.map_attribute a _

theorem noHeader_gap : NoHeader (gap d) := by
  intro l hl
  unfold gap at hl
  split at hl
  · cases hl
  · rw [List.mem_singleton.1 hl]
    rfl

theorem newLines_of_missing (hs : d.span? i.scope = none) (hp : i.presence = .present) (name : Text)
    (hname : i.scope = .stanza name) :
    i.newLines d = gap d ++ .header name :: i.attrLines d := by
  unfold newLines
  rw [hs, hp, hname]

theorem insertedAt_plan_of_missing (hs : d.span? i.scope = none) (hp : i.presence = .present)
    (name : Text) (hname : i.scope = .stanza name) (n : Nat) : (i.plan d).1.insertedAt n =
      if n = d.lines.length then gap d ++ .header name :: i.attrLines d else [] := by
  rw [i.insertedAt_plan d, i.insertLine_of_span?_eq_none d hs,
    i.newLines_of_missing d hs hp name hname]

/-- A scope that is missing is that of a stanza, and no line has to go for it. -/
theorem lines_edit_of_missing (hs : d.span? i.scope = none) (hp : i.presence = .present) :
    ∃ name, i.scope = .stanza name ∧
      (i.edit d).lines = d.lines ++ (gap d ++ .header name :: i.attrLines d) := by
  obtain ⟨name, hname⟩ : ∃ name, i.scope = .stanza name := by
    cases hx : i.scope with
    | top =>
      rw [hx] at hs
      exact absurd d.top_mem_scopes ((d.span?_eq_none_iff _).1 hs)
    | stanza name => exact ⟨name, rfl⟩
  have hline := i.insertLine_of_span?_eq_none d hs
  have hnew := i.newLines_of_missing d hs hp name hname
  refine ⟨name, hname, ?_⟩
  rw [i.lines_edit_of_not_removes d (Nat.le_of_eq hline) (i.not_removes_of_span?_eq_none d hs),
    hline, List.take_length, List.drop_length, hnew, List.append_nil]

theorem sections_edit_of_missing (hs : d.span? i.scope = none) (hp : i.presence = .present) :
    ∃ name init last, i.scope = .stanza name ∧ d.sections = init ++ [last] ∧
      (i.edit d).sections = init ++ [⟨last.scope, last.lines ++ gap d⟩,
        ⟨.stanza name, .header name :: i.attrLines d⟩] := by
  obtain ⟨name, hname, hlines⟩ := i.lines_edit_of_missing d hs hp
  have hne : d.sections ≠ [] := List.cons_ne_nil _ _
  have hd : d.sections = d.sections.dropLast ++ [d.sections.getLast hne] :=
    (List.dropLast_append_getLast hne).symm
  have hareas := d.areSections_sections
  rw [hd] at hareas
  refine ⟨name, _, _, hname, hd, ?_⟩
  rw [Document.sections_eq_iff]
  constructor
  · exact hareas.append_stanza _ _ (noHeader_gap d) ⟨_, _, rfl, rfl, i.noHeader_attrLines d⟩
      (by simp)
  · rw [hlines, ← d.flatMap_lines_sections]
    conv => rhs; rw [hd]
    simp

/-- The new stanza is the only one of its name, and the lines in front of it are those that were
there and the blank one. -/
theorem sections_edit_of_missing_eq (hs : d.span? i.scope = none) (hp : i.presence = .present) :
    ∃ name pre, i.scope = .stanza name ∧
      (i.edit d).sections = pre ++ [⟨.stanza name, .header name :: i.attrLines d⟩] ∧
        (∀ u ∈ pre, u.scope ≠ .stanza name) ∧ pre.flatMap Section.lines = d.lines ++ gap d := by
  obtain ⟨name, init, last, hname, hd, he⟩ := i.sections_edit_of_missing d hs hp
  have hother := (d.span?_eq_none_iff _).1 hs
  rw [d.mem_scopes, hd, hname] at hother
  refine ⟨name, init ++ [⟨last.scope, last.lines ++ gap d⟩], hname, by simp [he], ?_, ?_⟩
  · intro u hu hx
    apply hother
    rcases List.mem_append.1 hu with hu | hu
    · exact ⟨u, List.mem_append_left _ hu, hx⟩
    · rw [List.mem_singleton.1 hu] at hx
      exact ⟨last, by simp, hx⟩
  · rw [← d.flatMap_lines_sections, hd]
    simp

end Intent

/-! ## Removing a scope -/

/-- If a patch deletes whole sections, the lines of the others stay. -/
theorem Patch.remaining_flatMap (p : Patch) (x : Scope) (n : Nat) (ss : List Section)
    (h : ∀ s ∈ spansFrom n ss, ∀ m, s.start ≤ m → m < s.stop → (p.Deletes m ↔ s.scope = x)) :
    p.remaining n (ss.flatMap Section.lines) =
      (ss.filter (·.scope ≠ x)).flatMap Section.lines := by
  induction ss generalizing n with
  | nil => rfl
  | cons s ss ih =>
    have hss := ih (n + s.lines.length) fun t ht => h t (List.mem_cons_of_mem _ ht)
    have hfirst := h ⟨s, n⟩ List.mem_cons_self
    rw [List.flatMap_cons, remaining_append, hss]
    by_cases hx : s.scope = x
    · rw [List.filter_cons_of_neg (by simpa using hx), (p.remaining_eq_nil_iff n s.lines).2,
        List.nil_append]
      exact fun k hk => (hfirst (n + k) (Nat.le_add_right n k) (Nat.add_lt_add_left hk n)).2 hx
    · rw [List.filter_cons_of_pos (by simpa using hx), p.remaining_eq_self n s.lines,
        List.flatMap_cons]
      exact fun k hk => mt (hfirst (n + k) (Nat.le_add_right n k) (Nat.add_lt_add_left hk n)).1 hx

namespace Intent

variable (i : Intent) (d : Document) (ha : i.attr = none) (hp : i.presence = .absent)

include ha hp

theorem newLines_of_absent : i.newLines d = [] := by
  unfold newLines attrLines
  rw [ha, hp]
  cases d.span? i.scope <;> rfl

theorem sections_edit_of_absent_stanza (name : Text) (hx : i.scope = .stanza name) :
    (i.edit d).sections = d.sections.filter (·.scope ≠ i.scope) := by
  rw [Document.sections_eq_iff]
  constructor
  · obtain ⟨hproper, body, rest, hd, hrest⟩ := d.areSections_sections
    constructor
    · exact fun s hs => hproper s (List.mem_filter.1 hs).1
    · refine ⟨body, rest.filter (·.scope ≠ i.scope), ?_, fun s hs =>
        hrest s (List.mem_filter.1 hs).1⟩
      rw [hd, List.filter_cons_of_pos (by simp [hx])]
  · rw [i.lines_edit_of_newLines_eq_nil d (i.newLines_of_absent d ha hp)]
    conv => rhs; rw [← d.flatMap_lines_sections]
    symm
    apply Patch.remaining_flatMap
    intro s hs m hle hlt
    rw [i.deletes_plan d]
    unfold Removes Document.spansOf
    simp only [ha, hp, hx, List.mem_filter, decide_eq_true_eq]
    constructor
    · rintro ⟨t, ⟨ht, htx⟩, htm⟩
      rw [eq_of_mem_spans d s t hs ht m ⟨hle, hlt⟩ htm]
      exact htx
    · intro hsx
      exact ⟨s, ⟨hs, hsx⟩, hle, hlt⟩

theorem removes_top_iff (hx : i.scope = .top) (ls : List Line) (rest : List Section)
    (hd : d.sections = ⟨.top, ls⟩ :: rest) (n : Nat) :
    i.Removes d n ↔ ∃ l ∈ ls[n]?, l.attribute?.isSome = true := by
  have hspan : d.span? .top = some ⟨⟨.top, ls⟩, 0⟩ := by
    unfold Document.span? Document.spans
    rw [hd]
    rfl
  unfold Removes
  simp only [ha, hp, hx, hspan, Option.some.injEq, exists_eq_left', Option.isSome_iff_exists]
  constructor
  · rintro ⟨q, hq, rfl⟩
    obtain ⟨-, l, hl, hk⟩ := (Span.mem_places_iff _ q).1 hq
    exact ⟨l, hl, _, (l.attribute?_eq_some_iff (q.name, q.value)).2 hk⟩
  · rintro ⟨l, hl, b, hb⟩
    have hk := (l.attribute?_eq_some_iff b).1 hb
    exact ⟨⟨n, b.1, b.2⟩, (Span.mem_places_iff _ _).2 ⟨Nat.zero_le _, l, hl, hk⟩, rfl⟩

/-- The top level keeps its comments and blanks. -/
theorem sections_edit_of_absent_top (hx : i.scope = .top) : ∃ ls rest,
    d.sections = ⟨.top, ls⟩ :: rest ∧
      (i.edit d).sections = ⟨.top, ls.filter (·.attribute?.isNone)⟩ :: rest := by
  have hareas := d.areSections_sections
  obtain ⟨-, ls, rest, hd, -⟩ := id hareas
  rw [hd] at hareas
  have hremoves := i.removes_top_iff d ha hp hx ls rest hd
  have hproper : NoHeader ls := hareas.proper _ List.mem_cons_self
  refine ⟨ls, rest, hd, ?_⟩
  rw [Document.sections_eq_iff]
  constructor
  · have hkept : (⟨.top, ls.filter (·.attribute?.isNone)⟩ : Section).Proper :=
      hproper.subset List.filter_sublist.subset
    exact @AreSections.replace [] rest _ hareas _ hkept rfl
  · have hlines : d.lines = ls ++ rest.flatMap Section.lines := by
      rw [← d.flatMap_lines_sections, hd, List.flatMap_cons]
    rw [i.lines_edit_of_newLines_eq_nil d (i.newLines_of_absent d ha hp), hlines,
      Patch.remaining_append, List.flatMap_cons]
    congr 1
    · rw [(i.plan d).1.remaining_eq_filter (fun l => l.attribute?.isSome = true) 0 ls]
      · apply List.filter_congr
        intro l _
        cases l.attribute? <;> rfl
      · intro n l hl
        rw [i.deletes_plan d, hremoves, Nat.zero_add, hl]
        simp
    · rw [(i.plan d).1.remaining_eq_self]
      intro n _
      rw [i.deletes_plan d, hremoves, List.getElem?_eq_none (by omega)]
      simp

end Intent

end Stanzas
