import Mathlib.Data.List.Basic
import Stanzas.Proofs.Scope

/-!
# Where attributes stand

The places of a span are its attribute lines in the order of their numbers, all of them inside the
span (`mem_places_iff`, `pairwise_places`). A new attribute line goes behind all of them, and never
in front of the header of a stanza (`line_lt_appendLine`, `start_le_appendLine`).
-/

namespace Stanzas

namespace Span

variable (s : Span)

theorem mem_places_iff (p : Place) : p ∈ s.places ↔ s.start ≤ p.line ∧
    ∃ l, s.lines[p.line - s.start]? = some l ∧ l.kind = .attribute p.name p.value := by
  unfold places
  rw [List.mem_filterMap]
  constructor
  · rintro ⟨⟨l, n⟩, hmem, hp⟩
    obtain ⟨b, hb, rfl⟩ := Option.map_eq_some_iff.1 hp
    obtain ⟨hle, hl⟩ := List.mk_mem_zipIdx_iff_le_and_getElem?_sub.1 hmem
    exact ⟨hle, l, hl, (l.attribute?_eq_some_iff b).1 hb⟩
  · rintro ⟨hle, l, hl, hk⟩
    refine ⟨(l, p.line), List.mk_mem_zipIdx_iff_le_and_getElem?_sub.2 ⟨hle, hl⟩, ?_⟩
    have hb := (l.attribute?_eq_some_iff (p.name, p.value)).2 hk
    show l.attribute?.map _ = _
    rw [hb]
    rfl

theorem line_lt_stop (p : Place) (hp : p ∈ s.places) : p.line < s.stop := by
  obtain ⟨hle, l, hl, -⟩ := (s.mem_places_iff p).1 hp
  obtain ⟨hlt, -⟩ := List.getElem?_eq_some_iff.1 hl
  unfold stop
  omega

theorem pairwise_places : s.places.Pairwise fun p q => p.line < q.line := by
  unfold places
  generalize s.start = n
  induction s.lines generalizing n with
  | nil => exact List.Pairwise.nil
  | cons l ls ih =>
    rw [List.zipIdx_cons, List.filterMap_cons]
    cases l.attribute? with
    | none => exact ih (n + 1)
    | some b =>
      refine List.Pairwise.cons ?_ (ih (n + 1))
      intro q hq
      obtain ⟨⟨m, k⟩, hmem, hk⟩ := List.mem_filterMap.1 hq
      obtain ⟨c, -, rfl⟩ := Option.map_eq_some_iff.1 hk
      have hle := List.le_snd_of_mem_zipIdx hmem
      show n < k
      exact hle

theorem pairwise_occurrences (a : Text) : (s.occurrences a).Pairwise fun p q => p.line < q.line :=
  s.pairwise_places.sublist List.filter_sublist

theorem mem_occurrences_iff (a : Text) (p : Place) :
    p ∈ s.occurrences a ↔ p ∈ s.places ∧ p.name = a := by
  unfold occurrences
  rw [List.mem_filter, decide_eq_true_eq]

theorem places_eq_nil_iff : s.places = [] ↔ ∀ a, s.values a = [] := by
  constructor
  · intro h a
    rw [← s.map_value_occurrences]
    unfold occurrences
    rw [h]
    rfl
  · intro h
    rw [List.eq_nil_iff_forall_not_mem]
    intro p hp
    have hvalue := List.mem_map_of_mem (f := Place.value) ((s.mem_occurrences_iff _ p).2 ⟨hp, rfl⟩)
    rw [s.map_value_occurrences, h] at hvalue
    cases hvalue

/-- A line is one attribute at most. -/
theorem eq_of_line_eq (p q : Place) (hp : p ∈ s.places) (hq : q ∈ s.places)
    (h : p.line = q.line) : p = q := by
  obtain ⟨-, l, hl, hk⟩ := (s.mem_places_iff p).1 hp
  obtain ⟨-, m, hm, hk'⟩ := (s.mem_places_iff q).1 hq
  rw [h, hm] at hl
  obtain rfl := Option.some.inj hl
  rw [hk] at hk'
  obtain ⟨hname, hvalue⟩ := Kind.attribute.inj hk'
  cases p
  cases q
  exact Place.mk.injEq .. ▸ ⟨h, hname, hvalue⟩

/-- Of places in order, the last one has the greatest number. -/
theorem line_le_of_getLast? (places : List Place) (p q : Place)
    (h : places.Pairwise fun p q => p.line < q.line) (hlast : places.getLast? = some p)
    (hq : q ∈ places) : q.line ≤ p.line := by
  obtain ⟨ps, rfl⟩ := List.getLast?_eq_some_iff.1 hlast
  rcases List.mem_append.1 hq with hq | hq
  · exact Nat.le_of_lt ((List.pairwise_append.1 h).2.2 q hq p (List.mem_singleton_self p))
  · exact Nat.le_of_eq (congrArg Place.line (List.mem_singleton.1 hq))

theorem line_le_of_head? (places : List Place) (p q : Place)
    (h : places.Pairwise fun p q => p.line < q.line) (hfirst : places.head? = some p)
    (hq : q ∈ places) : p.line ≤ q.line := by
  obtain ⟨ps, rfl⟩ := List.head?_eq_some_iff.1 hfirst
  rcases List.mem_cons.1 hq with rfl | hq
  · exact Nat.le_refl _
  · exact Nat.le_of_lt (List.rel_of_pairwise_cons h hq)

/-! ## Where an attribute is appended -/

theorem line_lt_appendLine (p : Place) (hp : p ∈ s.places) : p.line < s.appendLine := by
  unfold appendLine lastAttribute?
  cases hlast : s.places.getLast? with
  | none =>
    rw [List.getLast?_eq_none_iff.1 hlast] at hp
    cases hp
  | some q =>
    have := line_le_of_getLast? _ q p s.pairwise_places hlast hp
    simp only [Option.map_some]
    omega

theorem start_le_appendLine : s.start ≤ s.appendLine := by
  unfold appendLine lastAttribute?
  cases hlast : s.places.getLast? with
  | none => cases s.scope <;> simp
  | some q =>
    have := ((s.mem_places_iff q).1 (List.mem_of_getLast? hlast)).1
    simp only [Option.map_some]
    omega

variable (h : s.Proper)

include h

theorem appendLine_le_stop : s.appendLine ≤ s.stop := by
  unfold appendLine lastAttribute?
  cases hlast : s.places.getLast? with
  | none =>
    unfold Section.Proper at h
    cases hx : s.scope with
    | top => simp [stop]
    | stanza name =>
      rw [hx] at h
      obtain ⟨l, body, hlines, -⟩ := h
      simp [stop, hlines]
  | some q =>
    have := s.line_lt_stop q (List.mem_of_getLast? hlast)
    simp only [Option.map_some]
    omega

/-- The first line of a stanza is its header, so its places come later. -/
theorem start_lt_line (hx : s.scope ≠ .top) (p : Place) (hp : p ∈ s.places) : s.start < p.line := by
  obtain ⟨hle, l, hl, hk⟩ := (s.mem_places_iff p).1 hp
  unfold Section.Proper at h
  cases hscope : s.scope with
  | top => exact absurd hscope hx
  | stanza name =>
    rw [hscope] at h
    obtain ⟨m, body, hlines, hm, -⟩ := h
    rcases Nat.eq_or_lt_of_le hle with heq | hlt
    · -- otherwise the header would be an attribute
      rw [← heq, Nat.sub_self, hlines] at hl
      obtain rfl := Option.some.inj hl
      unfold Line.stanzaName? at hm
      rw [hk] at hm
      cases hm
    · exact hlt

theorem start_lt_appendLine (hx : s.scope ≠ .top) : s.start < s.appendLine := by
  unfold appendLine lastAttribute?
  cases hlast : s.places.getLast? with
  | none =>
    cases hscope : s.scope with
    | top => exact absurd hscope hx
    | stanza name => simp
  | some q =>
    have := s.start_lt_line h hx q (List.mem_of_getLast? hlast)
    simp only [Option.map_some]
    omega

end Span

/-! ## The top level -/

theorem Document.span?_top (d : Document) :
    d.span? .top = some ⟨⟨.top, (cutSections d.lines).1⟩, 0⟩ := rfl

/-- The first line of a document is on the top level if it opens no stanza. -/
theorem Document.exists_occurrence_zero_iff (d : Document) (s : Span) (hs : d.span? .top = some s)
    (a : Text) : (∃ p ∈ s.occurrences a, p.line = 0) ↔
      ∃ l ∈ d.lines.head?, ∃ v, l.kind = .attribute a v := by
  rw [d.span?_top] at hs
  obtain rfl := Option.some.inj hs
  have hhead : ∀ l v, l.kind = .attribute a v →
      ((cutSections d.lines).1[0]? = some l ↔ d.lines.head? = some l) := by
    intro l v hk
    cases d.lines with
    | nil => rfl
    | cons m ls =>
      unfold cutSections
      split
      · next name hm =>
        refine iff_of_false ?_ ?_
        · simp
        · intro h
          obtain rfl := Option.some.inj h
          unfold Line.stanzaName? at hm
          rw [hk] at hm
          cases hm
      · exact Iff.rfl
  constructor
  · rintro ⟨p, hp, hline⟩
    obtain ⟨hplace, rfl⟩ := (Span.mem_occurrences_iff _ a p).1 hp
    obtain ⟨-, l, hl, hk⟩ := (Span.mem_places_iff _ p).1 hplace
    rw [hline] at hl
    exact ⟨l, (hhead l _ hk).1 hl, _, hk⟩
  · rintro ⟨l, hl, v, hk⟩
    refine ⟨⟨0, a, v⟩, (Span.mem_occurrences_iff _ _ _).2 ⟨?_, rfl⟩, rfl⟩
    exact (Span.mem_places_iff _ _).2 ⟨Nat.le_refl _, l, (hhead l v hk).2 hl, hk⟩

end Stanzas
