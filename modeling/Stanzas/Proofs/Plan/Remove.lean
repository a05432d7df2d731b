import Mathlib.Data.List.Basic
import Stanzas.Proofs.Plan.Stay

/-!
# Which lines go with a scope

A stanza that shall be gone takes the lines of all spans of its name and no other line, so that its
name is the only one that goes (`Intent.RemovesStanzas`). Of the top level just the attribute lines
go (`Intent.RemovesTopAttributes`). Either way the lines that are left stand under the headers that
they stood under before, and where none is left a single newline is (`removes_of_absent`).
-/

namespace Stanzas

/-! ## Stanza names -/

theorem map_scope_cutSections (ls : List Line) : (cutSections ls).2.map Section.scope =
    (ls.filterMap Line.stanzaName?).map .stanza := by
  induction ls with
  | nil => rfl
  | cons l ls ih =>
    unfold cutSections
    cases hl : l.stanzaName? with
    | none => rw [List.filterMap_cons_none hl, ← ih]
    | some name => rw [List.filterMap_cons_some hl, List.map_cons, List.map_cons, ← ih]

/-- The lines in front of the first header are those of the top level. -/
theorem cutSections_eq_takeWhile (ls : List Line) :
    (cutSections ls).1 = ls.takeWhile (·.stanzaName?.isNone) ∧
      (cutSections ls).2.flatMap Section.lines = ls.dropWhile (·.stanzaName?.isNone) := by
  induction ls with
  | nil => exact ⟨rfl, rfl⟩
  | cons l ls ih =>
    obtain ⟨hfirst, hrest⟩ := ih
    have hlines := flatMap_lines_cutSections ls
    unfold cutSections
    cases hl : l.stanzaName? with
    | none => simp [hl, hfirst, hrest]
    | some name => simp [hl, hlines]

namespace Document

variable (d : Document)

theorem scopes_eq : d.scopes = .top :: d.stanzaNames.map .stanza :=
  congrArg (Scope.top :: ·) (map_scope_cutSections d.lines)

theorem stanzaNames_eq_iff (names : List Text) :
    d.stanzaNames = names ↔ d.scopes = .top :: names.map .stanza := by
  have hinj : Function.Injective Scope.stanza := fun a b hab => Scope.stanza.inj hab
  rw [d.scopes_eq, List.cons_inj_right, (List.map_injective_iff.2 hinj).eq_iff]

theorem mem_stanzaNames_iff (name : Text) :
    name ∈ d.stanzaNames ↔ (d.span? (.stanza name)).isSome = true := by
  rw [← Option.ne_none_iff_isSome, Ne, d.span?_eq_none_iff, not_not, d.scopes_eq]
  simp

end Document

/-! ## What an intent takes -/

namespace Span

variable (s : Span)

theorem places_eq_nil_iff_forall : s.places = [] ↔ ∀ l ∈ s.lines, l.attribute? = none := by
  unfold places
  rw [List.filterMap_eq_nil_iff]
  constructor
  · intro h l hl
    obtain ⟨n, hn⟩ := List.getElem?_of_mem hl
    have hmem : (l, s.start + n) ∈ s.lines.zipIdx s.start :=
      List.mk_mem_zipIdx_iff_le_and_getElem?_sub.2
        ⟨Nat.le_add_right _ _, by rwa [Nat.add_sub_cancel_left]⟩
    exact Option.map_eq_none_iff.1 (h _ hmem)
  · rintro h ⟨l, n⟩ hmem
    rw [h l (List.fst_mem_of_mem_zipIdx hmem)]
    rfl

theorem remove_of_top (d : Document) (hx : s.scope = .top) : s.remove d =
    if s.places = [] then (∅, .unchanged) else (.deletePlaces ∅ s.places, .stanzaRemoved) := by
  unfold remove
  rw [hx]
  cases s.places <;> rfl

end Span

namespace Intent

/-- How all stanzas of a name go. -/
structure RemovesStanzas (i : Intent) (d : Document) (name : Text) : Prop where
  /-- Just the lines outside of their spans are left. -/
  lines_edit : (i.edit d).lines = ((d.lines.zipIdx).filter fun l =>
    ∀ s ∈ d.spansOf (.stanza name), ¬ s.Covers l.2).map Prod.fst
  deletes_iff : ∀ n, (i.plan d).1.Deletes n ↔ ∃ s ∈ d.spansOf (.stanza name), s.Covers n
  /-- No other stanza goes. -/
  stanzaNames_edit : (i.edit d).stanzaNames = d.stanzaNames.filter (· ≠ name)
  plan_of_notMem : name ∉ d.stanzaNames → i.plan d = (∅, .unchanged)
  plan_of_mem : name ∈ d.stanzaNames →
    ¬ (i.plan d).1.IsEmpty ∧ (i.plan d).2 = .stanzaRemoved

/-- How the top level loses its attributes. -/
structure RemovesTopAttributes (i : Intent) (d : Document) : Prop where
  /-- Comments and blank lines stay, and so does all from the first header on. -/
  lines_edit : (i.edit d).lines =
    (d.lines.takeWhile (·.stanzaName?.isNone)).filter (·.attribute?.isNone) ++
      d.lines.dropWhile (·.stanzaName?.isNone)
  deletes_iff : ∀ n, (i.plan d).1.Deletes n ↔ d.InFirst .top n ∧ ∃ a, d.HasAttr n a
  stanzaNames_edit : (i.edit d).stanzaNames = d.stanzaNames
  plan_of_forall : (∀ l ∈ d.lines.takeWhile (·.stanzaName?.isNone), l.attribute? = none) →
    i.plan d = (∅, .unchanged)
  plan_of_exists : (∃ l ∈ d.lines.takeWhile (·.stanzaName?.isNone), l.attribute? ≠ none) →
    ¬ (i.plan d).1.IsEmpty ∧ (i.plan d).2 = .stanzaRemoved

section
variable (i : Intent) (d : Document) (ha : i.attr = none) (hp : i.presence = .absent)

include ha hp

theorem plan_of_absent (s : Span) (hs : d.span? i.scope = some s) : i.plan d = s.remove d := by
  unfold plan
  rw [hs, ha, hp]

theorem scopes_edit_of_absent_stanza (name : Text) (hx : i.scope = .stanza name) :
    (i.edit d).scopes = d.scopes.filter (· ≠ .stanza name) := by
  unfold Document.scopes
  rw [i.sections_edit_of_absent_stanza d ha hp name hx, List.filter_map, hx]
  rfl

theorem removesStanzas (name : Text) (hx : i.scope = .stanza name) : i.RemovesStanzas d name := by
  have hdel : ∀ n, (i.plan d).1.Deletes n ↔ ∃ s ∈ d.spansOf (.stanza name), s.Covers n := by
    intro n
    rw [i.deletes_plan d]
    unfold Removes
    rw [ha, hp, hx]
    rfl
  constructor
  case lines_edit =>
    rw [i.lines_edit_of_newLines_eq_nil d (i.newLines_of_absent d ha hp),
      (i.plan d).1.remaining_eq_filter_zipIdx _ hdel]
    simp only [not_exists, not_and]
  case deletes_iff => exact hdel
  case stanzaNames_edit =>
    have hscopes := i.scopes_edit_of_absent_stanza d ha hp name hx
    rw [d.scopes_eq, List.filter_cons_of_pos (by simp), List.filter_map] at hscopes
    rw [Document.stanzaNames_eq_iff, hscopes]
    congr 2
    apply List.filter_congr
    intro other _
    simp
  case plan_of_notMem =>
    intro hnone
    rw [d.mem_stanzaNames_iff, Option.not_isSome_iff_eq_none, ← hx] at hnone
    unfold plan
    rw [hnone, hp]
  case plan_of_mem =>
    intro hmem
    obtain ⟨s, hs⟩ := Option.isSome_iff_exists.1 ((d.mem_stanzaNames_iff name).1 hmem)
    have hspan : s ∈ d.spans := List.mem_of_find?_eq_some hs
    obtain ⟨-, -, -, -, hscope, -⟩ := d.sections_of_span? _ s hs
    constructor
    · -- the header of the first stanza goes
      apply Patch.not_isEmpty_of_deletes _ s.start
      rw [hdel]
      exact ⟨s, List.mem_filter.2 ⟨hspan, decide_eq_true hscope⟩,
        d.covers_start s hspan (by simp [hscope])⟩
    · rw [i.plan_of_absent d ha hp s (hx ▸ hs)]
      unfold Span.remove
      rw [hscope]

theorem deletes_plan_iff_of_absent_top (hx : i.scope = .top) (n : Nat) :
    (i.plan d).1.Deletes n ↔ d.InFirst .top n ∧ ∃ a, d.HasAttr n a := by
  have hspan := d.span?_top
  have hmem := List.mem_of_find?_eq_some hspan
  rw [i.plan_of_absent d ha hp _ (by rw [hx, hspan]), Span.deletes_remove]
  simp only [← List.mem_map]
  rw [d.mem_line_places_iff _ hmem]
  apply and_congr_left
  intro _
  constructor
  · exact d.inFirst_top_of_covers _ hmem rfl n
  · intro hin
    obtain ⟨s, hs, hsx, hn⟩ := d.exists_covers_of_inFirst_top n hin
    have htop := d.span?_top_of_mem_spans s hs hsx
    rw [hspan] at htop
    exact Option.some.inj htop ▸ hn

theorem removesTopAttributes (hx : i.scope = .top) : i.RemovesTopAttributes d := by
  obtain ⟨hfirst, hrest⟩ := cutSections_eq_takeWhile d.lines
  obtain ⟨ls, rest, hd, he⟩ := i.sections_edit_of_absent_top d ha hp hx
  obtain ⟨hls, rfl⟩ := List.cons.inj hd
  obtain rfl := congrArg Section.lines hls
  have hdel := i.deletes_plan_iff_of_absent_top d ha hp hx
  have hplan := i.plan_of_absent d ha hp _ (by rw [hx, d.span?_top])
  rw [Span.remove_of_top _ d rfl] at hplan
  have hplaces : (⟨⟨.top, (cutSections d.lines).1⟩, 0⟩ : Span).places = [] ↔
      ∀ l ∈ d.lines.takeWhile (·.stanzaName?.isNone), l.attribute? = none := by
    rw [← hfirst]
    exact Span.places_eq_nil_iff_forall _
  constructor
  case lines_edit => rw [← Document.flatMap_lines_sections, he, List.flatMap_cons, hrest, hfirst]
  case deletes_iff => exact hdel
  case stanzaNames_edit =>
    rw [Document.stanzaNames_eq_iff, ← d.scopes_eq]
    unfold Document.scopes
    rw [he]
    rfl
  case plan_of_forall =>
    intro hnone
    rw [hplan, if_pos (hplaces.2 hnone)]
  case plan_of_exists =>
    rintro ⟨l, hl, hattr⟩
    have hsome := mt hplaces.1 fun hnone => hattr (hnone l hl)
    rw [hplan, if_neg hsome]
    exact ⟨Patch.not_isEmpty_deletePlaces ∅ _ hsome, rfl⟩

theorem removes_of_absent :
    (∀ name, i.scope = .stanza name → i.RemovesStanzas d name) ∧
    (i.scope = .top → i.RemovesTopAttributes d) ∧
    (i.plan d).1.KeepsSpans d ∧
    (d.lines ≠ [] → (i.edit d).lines = [] → ∀ style, (i.edit d).render style = ['\n']) := by
  refine ⟨i.removesStanzas d ha hp, i.removesTopAttributes d ha hp, i.keepsSpans_plan d, ?_⟩
  intro hne hnil style
  have hedit : i.edit d = ⟨[], true⟩ := (i.plan d).1.apply_eq_of_lines_eq_nil d hne hnil
  rw [hedit]
  rfl

end

/-- Two stanzas in a row go, and one behind another name; then they are all there is. -/
theorem removes_of_absent_repeated :
    let i : Intent := ⟨.stanza ['s'], none, [], .absent, true, false⟩
    let d := Document.read ['s', ':', '\n', '#', '\n', 's', ':', '\n', 't', ':', '\n', 'a', '=',
      '1', '\n', 's', ':']
    let e := Document.read ['s', ':', '\n', '#', '\n', 's', ':']
    i.attr = none ∧ i.presence = .absent ∧ i.RemovesStanzas d ['s'] ∧
      (i.edit d).lines = [.kept ['t', ':'], .kept ['a', '=', '1']] ∧ (i.edit e).lines = [] ∧
        (i.edit e).render .compact = ['\n'] := by
  intro i d e
  have hnil : (i.edit e).lines = [] := by decide
  obtain ⟨hstanzas, -⟩ := i.removes_of_absent d rfl rfl
  obtain ⟨-, -, -, hrender⟩ := i.removes_of_absent e rfl rfl
  exact ⟨rfl, rfl, hstanzas ['s'] rfl, by decide, hnil, hrender (by decide) hnil .compact⟩

end Intent

end Stanzas
