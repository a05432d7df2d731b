import Mathlib.Data.List.Basic
import Stanzas.Scope.Span

/-!
# Documents by their sections

A document is its sections, and any sections with a header in front and none behind make a document
(`AreSections`).

    d.sections = ss ↔ AreSections ss ∧ ss.flatMap Section.lines = d.lines        (sections_eq_iff)

What a reader learns of a document is its scopes in order (`Document.scopes`) and the values of the
attributes in the first section of a scope (`Document.values`). Both are read off the kinds of the
lines (`scopes_congr`, `values_congr`), so spelling, comments and blanks have no part in them.
-/

namespace Stanzas

/-! ## Sections -/

/-- No line opens a stanza. -/
def NoHeader (ls : List Line) : Prop := ∀ l ∈ ls, l.stanzaName? = none

namespace NoHeader

theorem append {ls ms : List Line} (hls : NoHeader ls) (hms : NoHeader ms) :
    NoHeader (ls ++ ms) := by
  intro l hl
  rcases List.mem_append.1 hl with hl | hl
  · exact hls l hl
  · exact hms l hl

theorem subset {ls ms : List Line} (hls : NoHeader ls) (h : ms ⊆ ls) : NoHeader ms :=
  fun l hl => hls l (h hl)

theorem map_attribute (a : Text) (vs : List (Option Text)) :
    NoHeader (vs.map (Line.attribute a)) := by
  intro l hl
  obtain ⟨v, -, rfl⟩ := List.mem_map.1 hl
  rfl

end NoHeader

/-- A section that a document can have. -/
def Section.Proper (s : Section) : Prop :=
  match s.scope with
  | .top => NoHeader s.lines
  | .stanza name => ∃ l body, s.lines = l :: body ∧ l.stanzaName? = some name ∧ NoHeader body

theorem Section.Proper.append {s : Section} (hs : s.Proper) (ls : List Line) (hls : NoHeader ls) :
    Section.Proper { s with lines := s.lines ++ ls } := by
  unfold Section.Proper at hs ⊢
  cases hscope : s.scope with
  | top =>
    simp only [hscope] at hs ⊢
    exact NoHeader.append hs hls
  | stanza name =>
    simp only [hscope] at hs ⊢
    obtain ⟨l, body, hlines, hl, hbody⟩ := hs
    rw [hlines]
    exact ⟨l, body ++ ls, rfl, hl, hbody.append hls⟩

/-- The sections of some document: only the first one is that of the top level. -/
structure AreSections (ss : List Section) : Prop where
  proper : ∀ s ∈ ss, s.Proper
  top_first : ∃ body rest, ss = ⟨.top, body⟩ :: rest ∧ ∀ s ∈ rest, s.scope ≠ .top

/-- A section may take the place of another one of its scope. -/
theorem AreSections.replace {pre post : List Section} {s : Section}
    (h : AreSections (pre ++ s :: post)) (t : Section) (ht : t.Proper)
    (hscope : t.scope = s.scope) : AreSections (pre ++ t :: post) := by
  obtain ⟨hproper, body, rest, hss, hrest⟩ := h
  constructor
  · intro u hu
    rcases List.mem_append.1 hu with hu | hu
    · exact hproper u (List.mem_append_left _ hu)
    · rcases List.mem_cons.1 hu with rfl | hu
      · exact ht
      · exact hproper u (List.mem_append_right _ (List.mem_cons_of_mem _ hu))
  · cases pre with
    | nil =>
      obtain ⟨rfl, rfl⟩ := List.cons.inj hss
      obtain ⟨scope, lines⟩ := t
      obtain rfl : scope = .top := hscope
      exact ⟨lines, post, rfl, hrest⟩
    | cons p pre =>
      obtain ⟨rfl, rfl⟩ := List.cons.inj hss
      refine ⟨body, pre ++ t :: post, rfl, ?_⟩
      intro u hu
      rcases List.mem_append.1 hu with hu | hu
      · exact hrest u (List.mem_append_left _ hu)
      · rcases List.mem_cons.1 hu with rfl | hu
        · rw [hscope]
          exact hrest s (by simp)
        · exact hrest u (List.mem_append_right _ (List.mem_cons_of_mem _ hu))

/-- A stanza may follow the last section. -/
theorem AreSections.append {ss : List Section} (h : AreSections ss) (s : Section) (hs : s.Proper)
    (hx : s.scope ≠ .top) : AreSections (ss ++ [s]) := by
  obtain ⟨hproper, body, rest, rfl, hrest⟩ := h
  constructor
  · intro u hu
    rcases List.mem_append.1 hu with hu | hu
    · exact hproper u hu
    · rw [List.mem_singleton.1 hu]
      exact hs
  · refine ⟨body, rest ++ [s], rfl, ?_⟩
    intro u hu
    rcases List.mem_append.1 hu with hu | hu
    · exact hrest u hu
    · rw [List.mem_singleton.1 hu]
      exact hx

theorem stanzas_cutSections (ls : List Line) : NoHeader (cutSections ls).1 ∧
    ∀ s ∈ (cutSections ls).2, s.Proper ∧ s.scope ≠ .top := by
  induction ls with
  | nil => simp [cutSections, NoHeader]
  | cons l ls ih =>
    obtain ⟨hfirst, hrest⟩ := ih
    unfold cutSections
    split
    · next name hl =>
      constructor
      · simp [NoHeader]
      · intro s hs
        rcases List.mem_cons.1 hs with rfl | hs
        · exact ⟨⟨l, _, rfl, hl, hfirst⟩, by simp⟩
        · exact hrest s hs
    · next hl =>
      refine ⟨?_, hrest⟩
      intro k hk
      rcases List.mem_cons.1 hk with rfl | hk
      · exact hl
      · exact hfirst k hk

/-- Lines without a header stay in front of those that follow. -/
theorem cutSections_append (body ls : List Line) (h : NoHeader body) :
    cutSections (body ++ ls) = (body ++ (cutSections ls).1, (cutSections ls).2) := by
  induction body with
  | nil => rfl
  | cons l body ih =>
    have hl : l.stanzaName? = none := h l List.mem_cons_self
    have hbody := ih fun k hk => h k (List.mem_cons_of_mem _ hk)
    simp only [List.cons_append, cutSections, hbody, hl]

theorem cutSections_flatMap (ss : List Section) (h : ∀ s ∈ ss, s.Proper ∧ s.scope ≠ .top) :
    cutSections (ss.flatMap Section.lines) = ([], ss) := by
  induction ss with
  | nil => rfl
  | cons s ss ih =>
    have hss := ih fun t ht => h t (List.mem_cons_of_mem _ ht)
    obtain ⟨hs, htop⟩ := h s List.mem_cons_self
    obtain ⟨scope, lines⟩ := s
    cases scope with
    | top => exact absurd rfl htop
    | stanza name =>
      obtain ⟨l, body, hlines, hl, hbody⟩ := hs
      simp only at hlines
      subst hlines
      have hcut := cutSections_append body (ss.flatMap Section.lines) hbody
      rw [hss, List.append_nil] at hcut
      simp only [List.flatMap_cons, List.cons_append, cutSections, hcut, hl]

namespace Document

theorem areSections_sections (d : Document) : AreSections d.sections := by
  obtain ⟨hfirst, hrest⟩ := stanzas_cutSections d.lines
  constructor
  · intro s hs
    rcases List.mem_cons.1 hs with rfl | hs
    · exact hfirst
    · exact (hrest s hs).1
  · exact ⟨_, _, rfl, fun s hs => (hrest s hs).2⟩

/-- Proper sections are the sections of their lines, and of no others. -/
theorem sections_eq_iff (d : Document) (ss : List Section) :
    d.sections = ss ↔ AreSections ss ∧ ss.flatMap Section.lines = d.lines := by
  constructor
  · rintro rfl
    exact ⟨d.areSections_sections, d.flatMap_lines_sections⟩
  · rintro ⟨⟨hproper, body, rest, rfl, hrest⟩, hlines⟩
    have hbody : NoHeader body := hproper ⟨.top, body⟩ List.mem_cons_self
    have hcut := cutSections_append body (rest.flatMap Section.lines) hbody
    rw [cutSections_flatMap rest fun s hs => ⟨hproper s (List.mem_cons_of_mem _ hs), hrest s hs⟩,
      List.append_nil] at hcut
    unfold sections
    rw [← hlines, List.flatMap_cons, hcut]

/-! ## Scopes -/

/-- The scopes of a document in order; those of stanzas that share a name are repeated. -/
def scopes (d : Document) : List Scope := d.sections.map Section.scope

theorem mem_scopes (d : Document) (x : Scope) : x ∈ d.scopes ↔ ∃ s ∈ d.sections, s.scope = x :=
  List.mem_map

theorem top_mem_scopes (d : Document) : .top ∈ d.scopes :=
  d.mem_scopes .top |>.2 ⟨_, List.mem_cons_self, rfl⟩

end Document

/-! ## The span of a scope -/

/-- Spans are found where their sections are, with the number of lines before them. -/
theorem find?_spansFrom_eq_some (n : Nat) (ss : List Section) (x : Scope) (s : Span)
    (h : (spansFrom n ss).find? (·.scope = x) = some s) :
    ∃ pre post, ss = pre ++ s.toSection :: post ∧ s.start = n + (pre.flatMap Section.lines).length ∧
      s.scope = x ∧ ∀ t ∈ pre, t.scope ≠ x := by
  induction ss generalizing n with
  | nil => cases h
  | cons t ss ih =>
    unfold spansFrom at h
    by_cases ht : t.scope = x
    · rw [List.find?_cons_of_pos (by simpa using ht)] at h
      obtain rfl := Option.some.inj h
      exact ⟨[], ss, rfl, rfl, ht, fun t ht => absurd ht List.not_mem_nil⟩
    · rw [List.find?_cons_of_neg (by simpa using ht)] at h
      obtain ⟨pre, post, rfl, hstart, hs, hpre⟩ := ih _ h
      refine ⟨t :: pre, post, rfl, ?_, hs, ?_⟩
      · rw [hstart, List.flatMap_cons, List.length_append]
        omega
      · intro u hu
        rcases List.mem_cons.1 hu with rfl | hu
        · exact ht
        · exact hpre u hu

theorem find?_spansFrom_eq_none_iff (n : Nat) (ss : List Section) (x : Scope) :
    (spansFrom n ss).find? (·.scope = x) = none ↔ ∀ t ∈ ss, t.scope ≠ x := by
  induction ss generalizing n with
  | nil => simp [spansFrom]
  | cons t ss ih =>
    unfold spansFrom
    by_cases ht : t.scope = x
    · rw [List.find?_cons_of_pos (by simpa using ht)]
      simp [ht]
    · rw [List.find?_cons_of_neg (by simpa using ht), ih]
      simp [ht]

namespace Document

theorem span?_eq_none_iff (d : Document) (x : Scope) : d.span? x = none ↔ x ∉ d.scopes := by
  unfold span? spans
  rw [find?_spansFrom_eq_none_iff, mem_scopes]
  simp

theorem sections_of_span? (d : Document) (x : Scope) (s : Span) (h : d.span? x = some s) :
    ∃ pre post, d.sections = pre ++ s.toSection :: post ∧
      s.start = (pre.flatMap Section.lines).length ∧ s.scope = x ∧ ∀ t ∈ pre, t.scope ≠ x := by
  obtain ⟨pre, post, hd, hstart, hs, hpre⟩ := find?_spansFrom_eq_some 0 d.sections x s h
  exact ⟨pre, post, hd, by omega, hs, hpre⟩

end Document

/-! ## Values -/

/-- The value that a line gives an attribute. -/
def Kind.value? (a : Text) : Kind → Option (Option Text)
  | .attribute name value => if name = a then some value else none
  | _ => none

theorem Kind.value?_eq_some_iff (a : Text) (v : Option Text) (k : Kind) :
    k.value? a = some v ↔ k = .attribute a v := by
  rcases k with _ | _ | _ | ⟨name, value⟩
  · simp [value?]
  · simp [value?]
  · simp [value?]
  · by_cases hn : name = a <;> simp [value?, hn]

theorem Line.attribute?_eq_some_iff (l : Line) (b : Text × Option Text) :
    l.attribute? = some b ↔ l.kind = .attribute b.1 b.2 := by
  obtain ⟨name, value⟩ := b
  unfold attribute?
  rcases l.kind with _ | _ | _ | ⟨name, value⟩ <;> simp

/-- The values that lines give an attribute. -/
def lineValues (a : Text) (ls : List Line) : List (Option Text) :=
  (ls.map Line.kind).filterMap (Kind.value? a)

theorem lineValues_append (a : Text) (ls ms : List Line) :
    lineValues a (ls ++ ms) = lineValues a ls ++ lineValues a ms := by
  unfold lineValues
  rw [List.map_append, List.filterMap_append]

theorem mem_lineValues_iff (a : Text) (ls : List Line) (v : Option Text) :
    v ∈ lineValues a ls ↔ ∃ l ∈ ls, l.kind = .attribute a v := by
  unfold lineValues
  simp only [List.mem_filterMap, List.mem_map, Kind.value?_eq_some_iff]
  constructor
  · rintro ⟨k, ⟨l, hl, rfl⟩, hk⟩
    exact ⟨l, hl, hk⟩
  · rintro ⟨l, hl, hk⟩
    exact ⟨_, ⟨l, hl, rfl⟩, hk⟩

theorem lineValues_map_attribute_self (a : Text) (vs : List (Option Text)) :
    lineValues a (vs.map (Line.attribute a)) = vs := by
  induction vs with
  | nil => rfl
  | cons v vs ih =>
    unfold lineValues at ih ⊢
    simpa [Line.kind, Kind.value?] using ih

theorem lineValues_eq_nil (a : Text) (ls : List Line) (h : ∀ l ∈ ls, ∀ v, l.kind ≠ .attribute a v) :
    lineValues a ls = [] := by
  rw [List.eq_nil_iff_forall_not_mem]
  intro v hv
  obtain ⟨l, hl, hk⟩ := (mem_lineValues_iff a ls v).1 hv
  exact h l hl v hk

/-- The values of an attribute in a section. -/
def Section.values (s : Section) (a : Text) : List (Option Text) := lineValues a s.lines

theorem Span.map_value_occurrences (s : Span) (a : Text) :
    (s.occurrences a).map Place.value = s.values a := by
  unfold occurrences places Section.values lineValues
  generalize s.start = n
  induction s.lines generalizing n with
  | nil => rfl
  | cons l ls ih =>
    rw [List.zipIdx_cons, List.filterMap_cons, List.map_cons]
    cases hl : l.attribute? with
    | none =>
      have hv : l.kind.value? a = none := by
        rw [Option.eq_none_iff_forall_ne_some]
        intro v hv
        rw [Kind.value?_eq_some_iff] at hv
        rw [(l.attribute?_eq_some_iff (a, v)).2 hv] at hl
        cases hl
      rw [List.filterMap_cons_none hv]
      exact ih _
    | some b =>
      have hk := (l.attribute?_eq_some_iff b).1 hl
      simp only [Option.map_some]
      by_cases hname : b.1 = a
      · have hv : l.kind.value? a = some b.2 := by
          rw [Kind.value?_eq_some_iff, hk, hname]
        rw [List.filterMap_cons_some hv, List.filter_cons_of_pos (by simpa using hname),
          List.map_cons, ih]
      · have hv : l.kind.value? a = none := by
          rw [hk]
          exact if_neg hname
        rw [List.filterMap_cons_none hv, List.filter_cons_of_neg (by simpa using hname), ih]

theorem map_toSection_spansFrom (n : Nat) (ss : List Section) :
    (spansFrom n ss).map Span.toSection = ss := by
  induction ss generalizing n with
  | nil => rfl
  | cons s ss ih => simp [spansFrom, ih]

namespace Document

theorem map_toSection_span? (d : Document) (x : Scope) :
    (d.span? x).map Span.toSection = d.sections.find? (·.scope = x) := by
  conv => rhs; rw [← map_toSection_spansFrom 0 d.sections, List.find?_map]
  rfl

/-- The first section of a scope holds its values. -/
theorem values_eq (d : Document) (x : Scope) (a : Text) :
    d.values x a = ((d.sections.find? (·.scope = x)).map (Section.values · a)).getD [] := by
  rw [← map_toSection_span?]
  unfold values
  cases d.span? x with
  | none => rfl
  | some s => exact s.map_value_occurrences a

theorem values_of_span? (d : Document) (x : Scope) (a : Text) (s : Span) (h : d.span? x = some s) :
    d.values x a = s.values a := by
  rw [values_eq, ← map_toSection_span?, h]
  rfl

theorem values_of_notMem_scopes (d : Document) (x : Scope) (a : Text) (h : x ∉ d.scopes) :
    d.values x a = [] := by
  rw [values_eq, ← map_toSection_span?, (d.span?_eq_none_iff x).2 h]
  rfl

end Document

/-! ## What kinds tell -/

/-- The scope of a section and the kinds of its lines. -/
def Section.kinds (s : Section) : Scope × List Kind := (s.scope, s.lines.map Line.kind)

theorem kinds_cutSections_congr (ls ms : List Line) (h : ls.map Line.kind = ms.map Line.kind) :
    (cutSections ls).1.map Line.kind = (cutSections ms).1.map Line.kind ∧
      (cutSections ls).2.map Section.kinds = (cutSections ms).2.map Section.kinds := by
  induction ls generalizing ms with
  | nil =>
    obtain rfl := List.map_eq_nil_iff.1 h.symm
    exact ⟨rfl, rfl⟩
  | cons l ls ih =>
    cases ms with
    | nil => cases h
    | cons m ms =>
      obtain ⟨hl, hls⟩ := List.cons.inj h
      obtain ⟨hfirst, hrest⟩ := ih ms hls
      have hname : l.stanzaName? = m.stanzaName? := by
        unfold Line.stanzaName?
        rw [hl]
      unfold cutSections
      rw [hname]
      cases m.stanzaName? with
      | none => simp [hl, hfirst, hrest]
      | some name => simp [Section.kinds, hl, hfirst, hrest]

namespace Document

variable (d e : Document) (h : d.lines.map Line.kind = e.lines.map Line.kind)

include h

theorem kinds_sections_congr : d.sections.map Section.kinds = e.sections.map Section.kinds := by
  obtain ⟨hfirst, hrest⟩ := kinds_cutSections_congr d.lines e.lines h
  simp [sections, Section.kinds, hfirst, hrest]

theorem scopes_congr : d.scopes = e.scopes := by
  have hk := congrArg (List.map Prod.fst) (kinds_sections_congr d e h)
  rwa [List.map_map, List.map_map] at hk

theorem values_congr (x : Scope) (a : Text) : d.values x a = e.values x a := by
  -- of the first section of a scope only the kinds count
  have key : ∀ c : Document, c.values x a = (((c.sections.map Section.kinds).find? (·.1 = x)).map
      (·.2.filterMap (Kind.value? a))).getD [] := by
    intro c
    rw [values_eq, List.find?_map, Option.map_map]
    rfl
  rw [key d, key e, kinds_sections_congr d e h]

end Document

end Stanzas
