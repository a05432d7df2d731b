import Mathlib.Data.List.Basic
import Stanzas.Proofs.Plan
import Stanzas.Proofs.Scope.Places
import Stanzas.Proofs.Scope.Range

/-!
# Editing an attribute of a section

An intent about an attribute of a scope that a document has rewrites one section and leaves all
others (`sections_edit_of_attr`). Of the section it leaves the lines that it does not take, and in
one place writes the values that are missing (`Intent.rewrite`); no value of the attribute stays
behind that place, so the values afterwards are

    (i.rewrite s a).values a = (s.values a).filter (! i.drops ·) ++ i.missing (s.values a)
                                                                           (values_rewrite_self)
-/

namespace Stanzas

namespace Intent

variable (i : Intent) (s : Span) (a : Text)

/-- Whether a line is taken from an attribute. -/
def takes (l : Line) : Bool := (l.kind.value? a).any i.drops

/-- The section after an edit of an attribute. -/
def rewrite : Section where
  scope := s.scope
  lines :=
    let k := i.attrLineIn s a - s.start
    (s.lines.take k).filter (! i.takes a ·) ++
      (i.missing (s.values a)).map (Line.attribute a) ++ (s.lines.drop k).filter (! i.takes a ·)

/-! ## The place of new lines -/

/-- New lines go behind all attributes, or the attribute gets just the desired values: then they go
behind a value that stays, or take the place of the first value that goes. -/
theorem attrLineIn_eq :
    i.attrLineIn s a = s.appendLine ∧
        (s.occurrences a = [] ∨ ¬ (i.presence = .present ∧ i.exclusive = true)) ∨
      (i.presence = .present ∧ i.exclusive = true) ∧
        ((∃ p ∈ s.occurrences a, i.attrLineIn s a = p.line + 1 ∧ p.value ∈ i.desired) ∨
          ∃ p ∈ s.occurrences a, i.attrLineIn s a = p.line ∧
            ∀ q ∈ s.occurrences a, p.line ≤ q.line ∧ q.value ∉ i.desired) := by
  have hsorted := s.pairwise_occurrences a
  unfold attrLineIn
  cases hocc : s.occurrences a with
  | nil => exact Or.inl ⟨rfl, Or.inl rfl⟩
  | cons first rest =>
    rw [hocc] at hsorted
    simp only
    split
    · next hx =>
      refine Or.inr ⟨hx, ?_⟩
      split
      · next p hlast =>
        obtain ⟨hp, hv⟩ := List.mem_filter.1 (List.mem_of_getLast? hlast)
        exact Or.inl ⟨p, hp, rfl, of_decide_eq_true hv⟩
      · next hlast =>
        rw [List.getLast?_eq_none_iff, List.filter_eq_nil_iff] at hlast
        refine Or.inr ⟨first, List.mem_cons_self, rfl, fun q hq => ⟨?_, by simpa using hlast q hq⟩⟩
        exact Span.line_le_of_head? _ first q hsorted rfl hq
    · next hx => exact Or.inl ⟨rfl, Or.inr hx⟩

/-- Nothing that an attribute keeps stands behind its new lines. -/
theorem drops_of_attrLineIn_le (p : Place) (hp : p ∈ s.occurrences a)
    (hle : i.attrLineIn s a ≤ p.line) : i.drops p.value = true := by
  have hplace := (s.mem_occurrences_iff a p).1 hp
  have hsorted := s.pairwise_occurrences a
  have happend := s.line_lt_appendLine p hplace.1
  unfold attrLineIn at hle
  cases hocc : s.occurrences a with
  | nil =>
    rw [hocc] at hp
    cases hp
  | cons first rest =>
    rw [hocc] at hle hsorted hp
    simp only at hle
    split at hle
    · next hx =>
      have hdrops : i.drops p.value = decide (p.value ∉ i.desired) := by
        unfold drops
        rw [hx.1, hx.2]
      rw [hdrops, decide_eq_true_eq]
      intro hv
      have hkept : p ∈ (first :: rest).filter (·.value ∈ i.desired) :=
        List.mem_filter.2 ⟨hp, decide_eq_true hv⟩
      split at hle
      · next q hlast =>
        have := Span.line_le_of_getLast? _ q p (hsorted.sublist List.filter_sublist) hlast hkept
        omega
      · next hlast =>
        rw [List.getLast?_eq_none_iff] at hlast
        rw [hlast] at hkept
        cases hkept
    · omega

variable (h : s.Proper)

include h

theorem attrLineIn_le_stop : i.attrLineIn s a ≤ s.stop := by
  rcases i.attrLineIn_eq s a with ⟨heq, -⟩ | ⟨-, ⟨p, hp, heq, -⟩ | ⟨p, hp, heq, -⟩⟩
  · rw [heq]
    exact s.appendLine_le_stop h
  all_goals
    have := s.line_lt_stop p ((s.mem_occurrences_iff a p).1 hp).1
    omega

omit h in
theorem start_le_attrLineIn : s.start ≤ i.attrLineIn s a := by
  rcases i.attrLineIn_eq s a with ⟨heq, -⟩ | ⟨-, ⟨p, hp, heq, -⟩ | ⟨p, hp, heq, -⟩⟩
  · rw [heq]
    exact s.start_le_appendLine
  all_goals
    have := ((s.mem_places_iff p).1 ((s.mem_occurrences_iff a p).1 hp).1).1
    omega

theorem exists_attrLineIn_eq : ∃ k, i.attrLineIn s a = s.start + k ∧ k ≤ s.lines.length := by
  have hle := i.start_le_attrLineIn s a
  have hstop := i.attrLineIn_le_stop s a h
  unfold Span.stop at hstop
  exact ⟨i.attrLineIn s a - s.start, by omega, by omega⟩

theorem start_lt_attrLineIn (hx : s.scope ≠ .top) : s.start < i.attrLineIn s a := by
  rcases i.attrLineIn_eq s a with ⟨heq, -⟩ | ⟨-, ⟨p, hp, heq, -⟩ | ⟨p, hp, heq, -⟩⟩
  · rw [heq]
    exact s.start_lt_appendLine h hx
  all_goals
    have := s.start_lt_line h hx p ((s.mem_occurrences_iff a p).1 hp).1
    omega

end Intent

namespace Intent

theorem insertLine_le_length (i : Intent) (d : Document) : i.insertLine d ≤ d.lines.length := by
  unfold insertLine
  split
  · next s a hs _ =>
    obtain ⟨pre, post, hd, hstart, -⟩ := d.sections_of_span? _ s hs
    have hproper := Document.proper_of_sections d s pre post hd
    have hstop := i.attrLineIn_le_stop s a hproper
    exact Nat.le_trans hstop (Document.stop_le_length d s pre post hd hstart).1
  · exact Nat.le_refl _

theorem le_length_of_insertedAt (i : Intent) (d : Document) (n : Nat)
    (h : (i.plan d).1.insertedAt n ≠ []) : n ≤ d.lines.length := by
  rw [i.insertedAt_plan d] at h
  split at h
  · next hline =>
    rw [hline]
    exact i.insertLine_le_length d
  · exact absurd rfl h

end Intent

/-! ## Values -/

namespace Intent

variable (i : Intent) (a : Text)

theorem lineValues_filter_takes_self (ls : List Line) :
    lineValues a (ls.filter (! i.takes a ·)) = (lineValues a ls).filter (! i.drops ·) := by
  unfold lineValues
  induction ls with
  | nil => rfl
  | cons l ls ih =>
    rw [List.map_cons]
    cases hv : l.kind.value? a with
    | none =>
      have ht : i.takes a l = false := by simp [takes, hv]
      rw [List.filter_cons_of_pos (by simp [ht]), List.map_cons, List.filterMap_cons_none hv,
        List.filterMap_cons_none hv, ih]
    | some v =>
      have ht : i.takes a l = i.drops v := by simp [takes, hv]
      rw [List.filterMap_cons_some hv]
      cases hd : i.drops v with
      | true =>
        rw [List.filter_cons_of_neg (by simp [ht, hd]), List.filter_cons_of_neg (by simp [hd]), ih]
      | false =>
        rw [List.filter_cons_of_pos (by simp [ht, hd]), List.filter_cons_of_pos (by simp [hd]),
          List.map_cons, List.filterMap_cons_some hv, ih]

/-- Only lines of the attribute are taken. -/
theorem kind_of_takes (l : Line) (h : i.takes a l = true) : ∃ v, l.kind = .attribute a v := by
  unfold takes at h
  rw [Option.any_eq_true] at h
  obtain ⟨v, hv, -⟩ := h
  exact ⟨v, (Kind.value?_eq_some_iff a v _).1 hv⟩

theorem lineValues_filter_takes_of_ne (b : Text) (hb : b ≠ a) (ls : List Line) :
    lineValues b (ls.filter (! i.takes a ·)) = lineValues b ls := by
  induction ls with
  | nil => rfl
  | cons l ls ih =>
    unfold lineValues at ih ⊢
    cases ht : i.takes a l with
    | false =>
      rw [List.filter_cons_of_pos (by simp [ht]), List.map_cons, List.map_cons,
        List.filterMap_cons, List.filterMap_cons, ih]
    | true =>
      obtain ⟨v, hk⟩ := i.kind_of_takes a l ht
      have hv : l.kind.value? b = none := by
        rw [hk]
        exact if_neg (Ne.symm hb)
      rw [List.filter_cons_of_neg (by simp [ht]), List.map_cons, List.filterMap_cons_none hv, ih]

variable (s : Span)

theorem values_rewrite_self : (i.rewrite s a).values a =
    (s.values a).filter (! i.drops ·) ++ i.missing (s.values a) := by
  -- behind the new lines every line of the attribute is taken
  have hbehind : (lineValues a (s.lines.drop (i.attrLineIn s a - s.start))).filter
      (! i.drops ·) = [] := by
    rw [List.filter_eq_nil_iff]
    intro v hv
    obtain ⟨l, hl, hk⟩ := (mem_lineValues_iff a _ v).1 hv
    obtain ⟨n, hn⟩ := List.mem_iff_getElem?.1 hl
    rw [List.getElem?_drop] at hn
    have hstart := i.start_le_attrLineIn s a
    have hocc : (⟨i.attrLineIn s a + n, a, v⟩ : Place) ∈ s.occurrences a := by
      rw [Span.mem_occurrences_iff, Span.mem_places_iff]
      refine ⟨⟨by simp only; omega, l, ?_, hk⟩, rfl⟩
      rw [← hn]
      congr 1
      simp only
      omega
    have := i.drops_of_attrLineIn_le s a _ hocc (Nat.le_add_right _ n)
    simpa using this
  have hall : s.values a = lineValues a (s.lines.take (i.attrLineIn s a - s.start)) ++
      lineValues a (s.lines.drop (i.attrLineIn s a - s.start)) := by
    rw [← lineValues_append, List.take_append_drop]
    rfl
  show lineValues a (_ ++ _ ++ _) = _
  rw [lineValues_append, lineValues_append, lineValues_filter_takes_self,
    lineValues_filter_takes_self, lineValues_map_attribute_self, hbehind, List.append_nil]
  conv => rhs; rw [hall, List.filter_append, hbehind, List.append_nil]
  rw [← hall]

theorem values_rewrite_of_ne (b : Text) (hb : b ≠ a) : (i.rewrite s a).values b = s.values b := by
  have hnew : lineValues b ((i.missing (s.values a)).map (Line.attribute a)) = [] := by
    apply lineValues_eq_nil
    intro l hl v hk
    obtain ⟨w, -, rfl⟩ := List.mem_map.1 hl
    exact hb (Kind.attribute.inj hk).1.symm
  show lineValues b (_ ++ _ ++ _) = lineValues b s.lines
  rw [lineValues_append, lineValues_append, lineValues_filter_takes_of_ne i a b hb,
    lineValues_filter_takes_of_ne i a b hb, hnew, List.append_nil, ← lineValues_append,
    List.take_append_drop]

/-! ## The section that is edited -/

theorem noHeader_rewrite (ls : List Line) (h : NoHeader ls) (k : Nat) :
    NoHeader ((ls.take k).filter (! i.takes a ·) ++
      (i.missing (s.values a)).map (Line.attribute a) ++ (ls.drop k).filter (! i.takes a ·)) := by
  have hfront := h.subset (List.take_subset k ls)
  have hback := h.subset (List.drop_subset k ls)
  have hnew := NoHeader.map_attribute a (i.missing (s.values a))
  exact ((hfront.subset List.filter_sublist.subset).append hnew).append
    (hback.subset List.filter_sublist.subset)

theorem proper_rewrite (h : s.Proper) : (i.rewrite s a).Proper := by
  have hlt := i.start_lt_attrLineIn s a h
  unfold Section.Proper at h ⊢
  unfold rewrite
  cases hx : s.scope with
  | top =>
    simp only [hx] at h ⊢
    exact i.noHeader_rewrite a s s.lines h _
  | stanza name =>
    simp only [hx] at h hlt ⊢
    obtain ⟨m, body, hlines, hm, hbody⟩ := h
    -- the header is in front of the new lines, and no line of the attribute
    have hheader : i.takes a m = false := by
      cases ht : i.takes a m with
      | false => rfl
      | true =>
        obtain ⟨v, hk⟩ := i.kind_of_takes a m ht
        unfold Line.stanzaName? at hm
        rw [hk] at hm
        cases hm
    obtain ⟨k, hk⟩ : ∃ k, i.attrLineIn s a - s.start = k + 1 :=
      ⟨i.attrLineIn s a - s.start - 1, by have := hlt (by simp); omega⟩
    rw [hk, hlines, List.take_succ_cons, List.drop_succ_cons,
      List.filter_cons_of_pos (by simp [hheader]), List.cons_append, List.cons_append]
    exact ⟨m, _, rfl, hm, i.noHeader_rewrite a s body hbody k⟩

variable (d : Document) (ha : i.attr = some a) (hs : d.span? i.scope = some s)

include ha hs

theorem removes_iff_of_attr (n : Nat) :
    i.Removes d n ↔ ∃ p ∈ s.occurrences a, p.line = n ∧ i.drops p.value = true := by
  unfold Removes
  simp only [ha, hs, Option.some.injEq, exists_eq_left']

theorem removes_iff_takes (n : Nat) (l : Line) (hl : s.lines[n]? = some l) :
    i.Removes d (s.start + n) ↔ i.takes a l = true := by
  rw [i.removes_iff_of_attr a s d ha hs]
  unfold takes
  rw [Option.any_eq_true]
  have hidx : s.start + n - s.start = n := by omega
  constructor
  · rintro ⟨p, hp, hn, hd⟩
    obtain ⟨hplace, rfl⟩ := (s.mem_occurrences_iff a p).1 hp
    obtain ⟨-, m, hm, hk⟩ := (s.mem_places_iff p).1 hplace
    rw [hn, hidx, hl] at hm
    obtain rfl := Option.some.inj hm
    exact ⟨p.value, (Kind.value?_eq_some_iff _ _ _).2 hk, hd⟩
  · rintro ⟨v, hv, hd⟩
    have hk := (Kind.value?_eq_some_iff _ _ _).1 hv
    refine ⟨⟨s.start + n, a, v⟩, ?_, rfl, hd⟩
    rw [Span.mem_occurrences_iff, Span.mem_places_iff]
    exact ⟨⟨Nat.le_add_right _ _, l, by rw [hidx, hl], hk⟩, rfl⟩

theorem start_le_of_removes (n : Nat) (h : i.Removes d n) : s.start ≤ n ∧ n < s.stop := by
  obtain ⟨p, hp, rfl, -⟩ := (i.removes_iff_of_attr a s d ha hs n).1 h
  have hplace := ((s.mem_occurrences_iff a p).1 hp).1
  exact ⟨((s.mem_places_iff p).1 hplace).1, s.line_lt_stop p hplace⟩

theorem insertLine_of_attr : i.insertLine d = i.attrLineIn s a := by
  unfold insertLine
  rw [hs, ha]

theorem newLines_of_attr :
    i.newLines d = (i.missing (s.values a)).map (Line.attribute a) := by
  unfold newLines attrLines
  rw [hs, ha]
  simp only [d.values_of_span? _ a s hs]

theorem remaining_plan_of_attr (k : Nat) (ls : List Line)
    (h : ∀ n l, ls[n]? = some l → s.lines[k + n]? = some l) :
    (i.plan d).1.remaining (s.start + k) ls = ls.filter (! i.takes a ·) := by
  rw [(i.plan d).1.remaining_eq_filter (fun l => i.takes a l = true) _ ls]
  · simp
  · intro n l hl
    rw [i.deletes_plan d, Nat.add_assoc]
    exact i.removes_iff_takes a s d ha hs (k + n) l (h n l hl)

section
variable (pre post : List Section) (hd : d.sections = pre ++ s.toSection :: post)
  (hstart : s.start = (pre.flatMap Section.lines).length) (hproper : s.Proper)

include hd hstart hproper

/-- In front of the new lines only lines of the section are taken. -/
theorem remaining_front_of_attr :
    (i.plan d).1.remaining 0 (d.lines.take (i.attrLineIn s a)) = pre.flatMap Section.lines ++
      (s.lines.take (i.attrLineIn s a - s.start)).filter (! i.takes a ·) := by
  obtain ⟨k, hk, hkl⟩ := i.exists_attrLineIn_eq s a hproper
  have hlines := Document.lines_of_sections d s pre post hd
  generalize pre.flatMap Section.lines = before at hstart hlines ⊢
  rw [hk, Nat.add_sub_cancel_left, hlines, hstart, List.take_length_add_append,
    List.take_append_of_le_length hkl, Patch.remaining_append, Nat.zero_add, ← hstart]
  congr 1
  · apply (i.plan d).1.remaining_eq_self
    intro n hn
    rw [i.deletes_plan d]
    exact mt (i.start_le_of_removes a s d ha hs _) (by omega)
  · apply i.remaining_plan_of_attr a s d ha hs 0
    intro n l hl
    rw [List.getElem?_take] at hl
    split at hl
    · rwa [Nat.zero_add]
    · cases hl

theorem remaining_back_of_attr :
    (i.plan d).1.remaining (i.attrLineIn s a) (d.lines.drop (i.attrLineIn s a)) =
      (s.lines.drop (i.attrLineIn s a - s.start)).filter (! i.takes a ·) ++
        post.flatMap Section.lines := by
  obtain ⟨k, hk, hkl⟩ := i.exists_attrLineIn_eq s a hproper
  have hlines := Document.lines_of_sections d s pre post hd
  generalize pre.flatMap Section.lines = before at hstart hlines
  rw [hk, Nat.add_sub_cancel_left, hlines, hstart, List.drop_length_add_append,
    List.drop_append_of_le_length hkl, Patch.remaining_append, ← hstart]
  congr 1
  · apply i.remaining_plan_of_attr a s d ha hs k
    intro n l hl
    rwa [List.getElem?_drop] at hl
  · apply (i.plan d).1.remaining_eq_self
    intro n _
    rw [i.deletes_plan d, List.length_drop]
    refine mt (i.start_le_of_removes a s d ha hs _) ?_
    unfold Span.stop
    omega

/-- The lines around the section are left as they are. -/
theorem lines_edit_of_attr : (i.edit d).lines =
    pre.flatMap Section.lines ++ ((i.rewrite s a).lines ++ post.flatMap Section.lines) := by
  have hfront := i.remaining_front_of_attr a s d ha hs pre post hd hstart hproper
  have hback := i.remaining_back_of_attr a s d ha hs pre post hd hstart hproper
  rw [i.lines_edit d (i.insertLine_le_length d), i.insertLine_of_attr a s d ha hs, hfront, hback,
    i.newLines_of_attr a s d ha hs]
  unfold rewrite
  simp only [List.append_assoc]

omit hproper in
theorem sections_edit_of_sections : (i.edit d).sections = pre ++ i.rewrite s a :: post := by
  have hareas := d.areSections_sections
  rw [hd] at hareas
  have hproper : s.Proper := hareas.proper s.toSection (by simp)
  rw [Document.sections_eq_iff]
  constructor
  · exact hareas.replace _ (i.proper_rewrite a s hproper) rfl
  · rw [i.lines_edit_of_attr a s d ha hs pre post hd hstart hproper, List.flatMap_append,
      List.flatMap_cons]

end

/-- An edit of an attribute is an edit of one section. -/
theorem sections_edit_of_attr : ∃ pre post, d.sections = pre ++ s.toSection :: post ∧
    (∀ t ∈ pre, t.scope ≠ s.scope) ∧ (i.edit d).sections = pre ++ i.rewrite s a :: post := by
  obtain ⟨pre, post, hd, hstart, hscope, hpre⟩ := d.sections_of_span? _ s hs
  rw [← hscope] at hpre
  exact ⟨pre, post, hd, hpre, i.sections_edit_of_sections a s d ha hs pre post hd hstart⟩

end Intent

end Stanzas
