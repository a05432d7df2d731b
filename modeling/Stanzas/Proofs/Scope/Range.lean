import Mathlib.Data.List.Pairwise
import Stanzas.Proofs.Scope

/-!
# The lines of a scope

Which lines belong to a scope can be told from the headers alone: a line is in the stanza that the
last header before it opens, and on the top level if there is none. The spans of a document are just
these ranges (`inFirst_of_span?`, `inSome_of_mem_spansOf`), no two of them overlap
(`eq_of_mem_spans`), and none but the last one ends with the document (`stop_le_length`).
-/

namespace Stanzas

namespace Document

variable (d : Document)

/-- Whether line `n` opens a stanza of the given name. -/
def Opens (n : Nat) (name : Text) : Prop := ∃ l ∈ d.lines[n]?, l.stanzaName? = some name

/-- Whether line `n` is in the stanza that line `h` opens. -/
def InStanzaAt (h n : Nat) : Prop :=
  h ≤ n ∧ n < d.lines.length ∧ ∀ m, h < m → m ≤ n → ∀ name, ¬ d.Opens m name

/-- Whether a line is in some stanza of the given name. -/
def InSome (name : Text) (n : Nat) : Prop := ∃ h, d.Opens h name ∧ d.InStanzaAt h n

/-- Whether a line is in the first stanza of a name, or on the top level. -/
def InFirst (x : Scope) (n : Nat) : Prop :=
  match x with
  | .top => n < d.lines.length ∧ ∀ m, m ≤ n → ∀ name, ¬ d.Opens m name
  | .stanza name =>
    ∃ h, d.Opens h name ∧ (∀ m, m < h → ¬ d.Opens m name) ∧ d.InStanzaAt h n

end Document

/-- A section with the header of a stanza is that stanza's. -/
theorem Section.scope_of_mem (s : Section) (hs : s.Proper) (l : Line) (hl : l ∈ s.lines)
    (name : Text) (hname : l.stanzaName? = some name) : s.scope = .stanza name := by
  unfold Section.Proper at hs
  cases hx : s.scope with
  | top =>
    rw [hx] at hs
    have hnone : l.stanzaName? = none := hs l hl
    rw [hname] at hnone
    cases hnone
  | stanza other =>
    rw [hx] at hs
    obtain ⟨header, body, hlines, hheader, hbody⟩ := hs
    rw [hlines] at hl
    rcases List.mem_cons.1 hl with rfl | hl
    · rw [hname] at hheader
      obtain rfl := Option.some.inj hheader
      rfl
    · have hnone : l.stanzaName? = none := hbody l hl
      rw [hname] at hnone
      cases hnone

theorem mem_spansFrom (n : Nat) (ss : List Section) (s : Span) (hs : s ∈ spansFrom n ss) :
    ∃ pre post, ss = pre ++ s.toSection :: post ∧
      s.start = n + (pre.flatMap Section.lines).length := by
  induction ss generalizing n with
  | nil => cases hs
  | cons t ss ih =>
    rcases List.mem_cons.1 hs with rfl | hs
    · exact ⟨[], ss, rfl, rfl⟩
    · obtain ⟨pre, post, rfl, hstart⟩ := ih _ hs
      refine ⟨t :: pre, post, rfl, ?_⟩
      rw [hstart, List.flatMap_cons, List.length_append]
      omega

/-- Two spans of a document are one, or one of them ends before the other starts. -/
theorem pairwise_spansFrom (n : Nat) (ss : List Section) : (spansFrom n ss).Pairwise fun s t =>
    s.stop ≤ t.start := by
  induction ss generalizing n with
  | nil => exact List.Pairwise.nil
  | cons s ss ih =>
    refine List.Pairwise.cons ?_ (ih _)
    -- all later spans start behind the lines of this one
    have hle : ∀ (m : Nat) (ts : List Section), ∀ t ∈ spansFrom m ts, m ≤ t.start := by
      intro m ts
      induction ts generalizing m with
      | nil => intro t ht; cases ht
      | cons u ts ih =>
        intro t ht
        rcases List.mem_cons.1 ht with rfl | ht
        · exact Nat.le_refl _
        · have := ih _ t ht
          omega
    exact fun t ht => hle _ ss t ht

theorem eq_of_mem_spans (d : Document) (s t : Span) (hs : s ∈ d.spans) (ht : t ∈ d.spans) (n : Nat)
    (hsn : s.start ≤ n ∧ n < s.stop) (htn : t.start ≤ n ∧ n < t.stop) : s = t := by
  by_contra hne
  have hpair : d.spans.Pairwise fun s t => s.stop ≤ t.start ∨ t.stop ≤ s.start :=
    (pairwise_spansFrom 0 d.sections).imp Or.inl
  have hsymm : Std.Symm fun s t : Span => s.stop ≤ t.start ∨ t.stop ≤ s.start :=
    ⟨fun s t => Or.symm⟩
  have := hpair.forall hs ht hne
  omega

namespace Document

section
variable (d : Document) (s : Span) (pre post : List Section)
  (hd : d.sections = pre ++ s.toSection :: post)
  (hstart : s.start = (pre.flatMap Section.lines).length)

include hd

theorem lines_of_sections : d.lines =
    pre.flatMap Section.lines ++ (s.lines ++ post.flatMap Section.lines) := by
  rw [← d.flatMap_lines_sections, hd, List.flatMap_append, List.flatMap_cons]

theorem proper_of_sections : s.Proper :=
  d.areSections_sections.proper s.toSection (by simp [hd])

/-- Only the first section of a document may be without lines. -/
theorem lines_ne_nil_of_sections (u : Section) (hu : u ∈ post) : u.lines ≠ [] := by
  obtain ⟨hproper, body, rest, hss, hrest⟩ := d.areSections_sections
  have hmem : u ∈ rest := by
    rw [hd] at hss
    cases pre with
    | nil =>
      obtain ⟨-, rfl⟩ := List.cons.inj hss
      exact hu
    | cons v pre =>
      obtain ⟨-, rfl⟩ := List.cons.inj hss
      exact List.mem_append_right _ (List.mem_cons_of_mem _ hu)
  have hu' : u.Proper := hproper u (hss ▸ List.mem_cons_of_mem _ hmem)
  unfold Section.Proper at hu'
  cases hx : u.scope with
  | top => exact absurd hx (hrest u hmem)
  | stanza name =>
    rw [hx] at hu'
    obtain ⟨l, ls, hlines, -⟩ := hu'
    rw [hlines]
    exact List.cons_ne_nil l ls

include hstart

theorem stop_le_length :
    s.stop ≤ d.lines.length ∧ (s.stop = d.lines.length ↔ post = []) := by
  have hlen : d.lines.length = s.stop + (post.flatMap Section.lines).length := by
    unfold Span.stop
    rw [hstart, lines_of_sections d s pre post hd, List.length_append, List.length_append,
      Nat.add_assoc]
  refine ⟨by omega, ?_⟩
  constructor
  · intro hstop
    have hnil : post.flatMap Section.lines = [] := List.length_eq_zero_iff.1 (by omega)
    rw [List.flatMap_eq_nil_iff] at hnil
    apply List.eq_nil_iff_forall_not_mem.2
    exact fun u hu => lines_ne_nil_of_sections d s pre post hd u hu (hnil u hu)
  · rintro rfl
    rw [hlen]
    rfl

theorem getElem?_of_span (n : Nat) (hle : s.start ≤ n) (hlt : n < s.stop) :
    d.lines[n]? = s.lines[n - s.start]? := by
  unfold Span.stop at hlt
  rw [lines_of_sections d s pre post hd, List.getElem?_append_right (by omega), ← hstart,
    List.getElem?_append_left (by omega)]

theorem inStanzaAt_of_span (name : Text) (hx : s.scope = .stanza name) (n : Nat)
    (hle : s.start ≤ n) (hlt : n < s.stop) : d.Opens s.start name ∧ d.InStanzaAt s.start n := by
  have hproper := proper_of_sections d s pre post hd
  unfold Section.Proper at hproper
  rw [hx] at hproper
  obtain ⟨l, body, hlines, hl, hbody⟩ := hproper
  have hget := getElem?_of_span d s pre post hd hstart
  constructor
  · refine ⟨l, ?_, hl⟩
    rw [hget _ (Nat.le_refl _) (by omega), Nat.sub_self, hlines]
    rfl
  · refine ⟨hle, ?_, ?_⟩
    · rw [lines_of_sections d s pre post hd, List.length_append, List.length_append]
      unfold Span.stop at hlt
      omega
    · rintro m hm hmn other ⟨k, hk, hname⟩
      rw [hget m (by omega) (by omega), hlines] at hk
      obtain ⟨j, hj⟩ : ∃ j, m - s.start = j + 1 := ⟨m - s.start - 1, by omega⟩
      rw [hj, List.getElem?_cons_succ] at hk
      have hnone := hbody k (List.mem_of_getElem? hk)
      rw [hname] at hnone
      cases hnone

end

variable (d : Document)

/-- The span of a scope has the lines that are in it. -/
theorem inFirst_of_span? (x : Scope) (s : Span) (hs : d.span? x = some s) (n : Nat)
    (hle : s.start ≤ n) (hlt : n < s.stop) : d.InFirst x n := by
  obtain ⟨pre, post, hd, hstart, hscope, hpre⟩ := d.sections_of_span? x s hs
  cases x with
  | top =>
    have hnil : pre = [] := by
      cases pre with
      | nil => rfl
      | cons u pre =>
        have hu : u.scope = .top := by
          have := congrArg (·.head?.map Section.scope) hd
          exact (Option.some.inj this).symm
        exact absurd hu (hpre u List.mem_cons_self)
    subst hnil
    have hproper := proper_of_sections d s [] post hd
    unfold Section.Proper at hproper
    rw [hscope] at hproper
    have hzero : s.start = 0 := hstart
    constructor
    · rw [lines_of_sections d s [] post hd, List.flatMap_nil, List.nil_append, List.length_append]
      unfold Span.stop at hlt
      omega
    · rintro m hm name ⟨l, hl, hname⟩
      rw [getElem?_of_span d s [] post hd hstart m (by omega) (by omega)] at hl
      have hnone : l.stanzaName? = none := hproper l (List.mem_of_getElem? hl)
      rw [hname] at hnone
      cases hnone
  | stanza name =>
    obtain ⟨hopens, hin⟩ := inStanzaAt_of_span d s pre post hd hstart name hscope n hle hlt
    refine ⟨s.start, hopens, ?_, hin⟩
    -- an earlier header of the name would have a section of its own in front
    rintro m hm ⟨l, hl, hname⟩
    rw [lines_of_sections d s pre post hd, List.getElem?_append_left (by omega)] at hl
    obtain ⟨u, hu, hlu⟩ := List.mem_flatMap.1 (List.mem_of_getElem? hl)
    have hproper : u.Proper := d.areSections_sections.proper u (by simp [hd, hu])
    exact hpre u hu (u.scope_of_mem hproper l hlu name hname)

theorem inSome_of_mem_spansOf (name : Text) (s : Span) (hs : s ∈ d.spansOf (.stanza name)) (n : Nat)
    (hle : s.start ≤ n) (hlt : n < s.stop) : d.InSome name n := by
  obtain ⟨hmem, hscope⟩ := List.mem_filter.1 hs
  obtain ⟨pre, post, hd, hstart⟩ := mem_spansFrom 0 d.sections s hmem
  rw [Nat.zero_add] at hstart
  exact ⟨s.start, inStanzaAt_of_span d s pre post hd hstart name (of_decide_eq_true hscope) n hle
    hlt⟩

end Document

end Stanzas
