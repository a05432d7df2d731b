import Mathlib.Logic.Function.Iterate
import Stanzas.Proofs.Edit.Ending
import Stanzas.Proofs.Plan.Append
import Stanzas.Proofs.Plan.Remove

/-!
# Edits that are taken back

Values that a scope has got are taken again without a trace: the lines are those of before, whatever
else the attribute has and wherever the scope stands (`edit_withdrawing_edit_adding`). A stanza that
is made and removed leaves only the blank line in front of it, which serves the next one too, so any
number of round trips leaves at most one:

    (roundTrip i j)^[k + 1] d = ⟨d.lines ++ gap d, true⟩                 (iterate_succ_roundTrip)
-/

namespace Stanzas

namespace Intent

/-! ## Values -/

/-- The intent that an attribute has some values, whatever others it has. -/
def adding (x : Scope) (a : Text) (vs : List Text) (allowNoValue : Bool) : Intent :=
  ⟨x, some a, vs, .present, false, allowNoValue⟩

/-- The intent that an attribute has none of some values, whatever others it has. -/
def withdrawing (x : Scope) (a : Text) (vs : List Text) (allowNoValue : Bool) : Intent :=
  ⟨x, some a, vs, .absent, false, allowNoValue⟩

/-- What is absent is taken, and nothing is put in its place. -/
theorem lines_rewrite_of_absent (i : Intent) (hp : i.presence = .absent) (s : Span) (a : Text) :
    (i.rewrite s a).lines = s.lines.filter (! i.takes a ·) := by
  unfold rewrite missing
  simp only [hp]
  rw [List.map_nil, List.append_nil, ← List.filter_append, List.take_append_drop]

section
variable (x : Scope) (a : Text) (vs : List Text) (b b' : Bool)

theorem takes_adding (l : Line) : (adding x a vs b).takes a l = false := by
  unfold takes
  cases l.kind.value? a <;> rfl

theorem desired_adding (hne : vs ≠ []) : (adding x a vs b).desired = vs.map some :=
  if_neg fun h => hne h.1

theorem takes_withdrawing_iff (l : Line) :
    (withdrawing x a vs b).takes a l = true ↔ ∃ v ∈ vs, l.kind = .attribute a (some v) := by
  unfold takes
  simp only [Option.any_eq_true, Kind.value?_eq_some_iff]
  constructor
  · rintro ⟨w, hk, hw⟩
    obtain ⟨v, hv, rfl⟩ := List.mem_map.1 (of_decide_eq_true hw)
    exact ⟨v, hv, hk⟩
  · rintro ⟨v, hv, hk⟩
    exact ⟨some v, hk, decide_eq_true (List.mem_map_of_mem hv)⟩

variable (s : Span) (hne : vs ≠ []) (hnew : ∀ v ∈ vs, some v ∉ s.values a)

include hnew

/-- No old line has one of the new values. -/
theorem takes_withdrawing_of_mem (l : Line) (hl : l ∈ s.lines) :
    (withdrawing x a vs b).takes a l = false := by
  rw [← Bool.not_eq_true, takes_withdrawing_iff]
  rintro ⟨v, hv, hk⟩
  exact hnew v hv ((mem_lineValues_iff a _ _).2 ⟨l, hl, hk⟩)

include hne

theorem missing_adding : (adding x a vs b).missing (s.values a) = vs.map some := by
  show (adding x a vs b).desired.filter (· ∉ s.values a) = _
  rw [desired_adding x a vs b hne, List.filter_eq_self, List.forall_mem_map]
  exact fun v hv => decide_eq_true (hnew v hv)

theorem lines_rewrite_adding : ((adding x a vs b).rewrite s a).lines =
    s.lines.take (s.appendLine - s.start) ++ (vs.map some).map (Line.attribute a) ++
      s.lines.drop (s.appendLine - s.start) := by
  have hkeep : ∀ ls : List Line, ls.filter (! (adding x a vs b).takes a ·) = ls := by
    intro ls
    rw [List.filter_eq_self]
    intro l _
    rw [takes_adding]
    rfl
  have hline := (adding x a vs b).attrLineIn_of_adding a s (Or.inl rfl)
  unfold rewrite
  simp only [hkeep, hline, missing_adding x a vs b s hne hnew]

/-- The section is again what it was. -/
theorem rewrite_withdrawing_rewrite_adding : (withdrawing x a vs b').rewrite
    ⟨(adding x a vs b).rewrite s a, s.start⟩ a = s.toSection := by
  have hold : ∀ ls ⊆ s.lines, ls.filter (! (withdrawing x a vs b').takes a ·) = ls := by
    intro ls hls
    rw [List.filter_eq_self]
    intro l hl
    rw [takes_withdrawing_of_mem x a vs b' s hnew l (hls hl)]
    rfl
  have hgone : ((vs.map some).map (Line.attribute a)).filter
      (! (withdrawing x a vs b').takes a ·) = [] := by
    rw [List.filter_eq_nil_iff, List.map_map, List.forall_mem_map]
    intro v hv
    rw [(takes_withdrawing_iff x a vs b' _).2 ⟨v, hv, rfl⟩]
    exact Bool.false_ne_true
  have hlines := lines_rewrite_of_absent (withdrawing x a vs b') rfl
    ⟨(adding x a vs b).rewrite s a, s.start⟩ a
  rw [lines_rewrite_adding x a vs b s hne hnew, List.filter_append, List.filter_append, hgone,
    hold _ (List.take_subset _ _), hold _ (List.drop_subset _ _), List.append_nil,
    List.take_append_drop] at hlines
  exact congrArg (Section.mk s.scope) hlines

theorem reachesEnd_adding_iff :
    (adding x a vs b).ReachesEnd s a ↔ s.appendLine = s.stop := by
  have hsome : (adding x a vs b).missing (s.values a) ≠ [] := by
    rw [missing_adding x a vs b s hne hnew]
    exact mt List.map_eq_nil_iff.1 hne
  have hkept : ¬ ∃ l ∈ s.lines.getLast?, (adding x a vs b).takes a l = true := by
    rintro ⟨l, -, hl⟩
    rw [takes_adding] at hl
    cases hl
  unfold ReachesEnd
  rw [(adding x a vs b).attrLineIn_of_adding a s (Or.inl rfl), or_iff_left hkept,
    and_iff_right hsome]

/-- The last line is taken only if it is a new one. -/
theorem appendLine_of_reachesEnd_withdrawing (hproper : s.Proper)
    (h : (withdrawing x a vs b').ReachesEnd ⟨(adding x a vs b).rewrite s a, s.start⟩ a) :
    s.appendLine = s.stop := by
  rcases h with ⟨hsome, -⟩ | ⟨l, hl, htakes⟩
  · exact absurd rfl hsome
  · have hle := s.appendLine_le_stop hproper
    have hstart := s.start_le_appendLine
    by_contra hlt
    have hback : s.lines.drop (s.appendLine - s.start) ≠ [] := by
      rw [Ne, List.drop_eq_nil_iff]
      unfold Span.stop at hle hlt
      omega
    simp only at hl
    rw [lines_rewrite_adding x a vs b s hne hnew, List.getLast?_append_of_ne_nil _ hback] at hl
    have hmem := List.drop_subset _ _ (List.mem_of_getLast? hl)
    rw [takes_withdrawing_of_mem x a vs b' s hnew l hmem] at htakes
    cases htakes

/-! ### Documents -/

variable (d : Document) (hs : d.span? x = some s)

include hs

theorem snd_plan_adding : ((adding x a vs b).plan d).2 = .attrAdded := by
  obtain ⟨v, hv⟩ := List.exists_mem_of_ne_nil vs hne
  rw [(adding x a vs b).snd_plan_of_attr d a rfl s hs]
  apply if_neg
  intro hget
  refine hnew v hv (hget (some v) ?_)
  rw [desired_adding x a vs b hne]
  exact List.mem_map_of_mem hv

theorem snd_plan_withdrawing_edit_adding :
    ((withdrawing x a vs b').plan ((adding x a vs b).edit d)).2 = .attrChanged := by
  obtain ⟨v, hv⟩ := List.exists_mem_of_ne_nil vs hne
  have hspan := (adding x a vs b).span?_edit_of_attr a rfl d s hs
  rw [(withdrawing x a vs b').snd_plan_of_attr _ a rfl _ hspan]
  apply if_neg
  intro hnone
  refine hnone (some v) ?_ (List.mem_map_of_mem hv)
  simp only
  rw [(adding x a vs b).values_rewrite_self a s, missing_adding x a vs b s hne hnew]
  exact List.mem_append_right _ (List.mem_map_of_mem hv)

variable (pre post : List Section) (hd : d.sections = pre ++ s.toSection :: post)
  (hstart : s.start = (pre.flatMap Section.lines).length)

include hd hstart

theorem sections_edit_withdrawing_edit_adding :
    ((withdrawing x a vs b').edit ((adding x a vs b).edit d)).sections = d.sections := by
  have hspan := (adding x a vs b).span?_edit_of_attr a rfl d s hs
  have hmid := (adding x a vs b).sections_edit_of_sections a s d rfl hs pre post hd hstart
  rw [(withdrawing x a vs b').sections_edit_of_sections a _ _ rfl hspan pre post hmid hstart,
    rewrite_withdrawing_rewrite_adding x a vs b b' s hne hnew, hd]

/-- A newline comes to the end just if the new values are the last lines for a while. -/
theorem ended_edit_withdrawing_edit_adding_iff :
    ((withdrawing x a vs b').edit ((adding x a vs b).edit d)).ended = true ↔
      d.ended = true ∨ s.appendLine = d.lines.length := by
  have hspan := (adding x a vs b).span?_edit_of_attr a rfl d s hs
  have hmid := (adding x a vs b).sections_edit_of_sections a s d rfl hs pre post hd hstart
  have hproper := d.proper_of_sections s pre post hd
  have hstop := s.appendLine_le_stop hproper
  have hreach := appendLine_of_reachesEnd_withdrawing x a vs b b' s hne hnew hproper
  obtain ⟨hle, hlast⟩ := d.stop_le_length s pre post hd hstart
  rw [(withdrawing x a vs b').ended_edit_of_attr a _ _ rfl hspan pre post hmid hstart,
    (adding x a vs b).ended_edit_of_attr a s d rfl hs pre post hd hstart,
    reachesEnd_adding_iff x a vs b s hne hnew, or_assoc]
  apply or_congr_right
  constructor
  · rintro (⟨hnil, hend⟩ | ⟨hnil, hend⟩)
    · rw [hend, hlast.2 hnil]
    · rw [hreach hend, hlast.2 hnil]
  · intro hend
    exact Or.inl ⟨hlast.1 (by omega), by omega⟩

end

/-- What is written is what is taken. A newline at the end is all that may be left of it. -/
theorem edit_withdrawing_edit_adding (x : Scope) (a : Text) (vs : List Text) (b b' : Bool)
    (d : Document) (s : Span) (hs : d.span? x = some s) (hne : vs ≠ [])
    (hnew : ∀ v ∈ vs, some v ∉ d.values x a) :
    ((withdrawing x a vs b').edit ((adding x a vs b).edit d)).lines = d.lines ∧
      (((withdrawing x a vs b').edit ((adding x a vs b).edit d)).ended = true ↔
        d.ended = true ∨ s.appendLine = d.lines.length) ∧
      (∀ v ∈ vs, some v ∈ ((adding x a vs b).edit d).values x a) ∧
      ((adding x a vs b).plan d).2 = .attrAdded ∧
      ((withdrawing x a vs b').plan ((adding x a vs b).edit d)).2 = .attrChanged := by
  rw [d.values_of_span? x a s hs] at hnew
  obtain ⟨pre, post, hd, hstart, -, -⟩ := d.sections_of_span? x s hs
  have hback := sections_edit_withdrawing_edit_adding x a vs b b' s hne hnew d hs pre post hd hstart
  refine ⟨?_, ?_, ?_, ?_, ?_⟩
  · rw [← Document.flatMap_lines_sections, hback, Document.flatMap_lines_sections]
  · exact ended_edit_withdrawing_edit_adding_iff x a vs b b' s hne hnew d hs pre post hd hstart
  · intro v hv
    have hholds : (adding x a vs b).Holds ((adding x a vs b).edit d) := Intent.holds_edit _ d
    refine hholds.2.1 (some v) ?_
    rw [desired_adding x a vs b hne]
    exact List.mem_map_of_mem hv
  · exact snd_plan_adding x a vs b s hne hnew d hs
  · exact snd_plan_withdrawing_edit_adding x a vs b b' s hne hnew d hs

/-- Between a bare line, which stays, and the header of the next stanza. -/
theorem edit_withdrawing_edit_adding_of_bare :
    let d := Document.read ['s', ':', '\n', 'a', '=', '1', '\n', 'a', '\n', 't', ':']
    let vs : List Text := [['2'], []]
    (d.span? (.stanza ['s'])).isSome = true ∧ vs ≠ [] ∧
      (∀ v ∈ vs, some v ∉ d.values (.stanza ['s']) ['a']) ∧
      ((adding (.stanza ['s']) ['a'] vs false).edit d).lines.length = 6 ∧
      ((withdrawing (.stanza ['s']) ['a'] vs false).edit
        ((adding (.stanza ['s']) ['a'] vs false).edit d)).lines = d.lines := by
  intro d vs
  have hs : (d.span? (.stanza ['s'])).isSome = true := by decide
  have hnew : ∀ v ∈ vs, some v ∉ d.values (.stanza ['s']) ['a'] := by decide
  obtain ⟨s, hs'⟩ := Option.isSome_iff_exists.1 hs
  obtain ⟨hlines, -⟩ := edit_withdrawing_edit_adding _ ['a'] vs false false d s hs' (by decide) hnew
  exact ⟨hs, by decide, hnew, by decide, hlines⟩

/-! ## Stanzas -/

/-- A document after an edit and, then, one that shall take it back. -/
def roundTrip (i j : Intent) (d : Document) : Document := j.edit (i.edit d)

/-- The blank line in front of a stanza is gap enough for the next one. -/
theorem gap_append_gap (d : Document) (b : Bool) : gap ⟨d.lines ++ gap d, b⟩ = [] := by
  apply if_pos
  show (d.lines ++ gap d).getLast?.any Line.isBlank = true
  unfold gap
  split
  · next hblank => rwa [List.append_nil]
  · rw [List.getLast?_concat]
    rfl

theorem ended_edit_of_missing (i : Intent) (d : Document) (hs : d.span? i.scope = none)
    (hp : i.presence = .present) : (i.edit d).ended = true := by
  obtain ⟨name, hmakes⟩ := i.makesStanza d hs hp
  rw [i.ended_edit_iff d]
  refine Or.inr (Or.inl ?_)
  rw [hmakes.insertedAt_eq, if_pos rfl]
  exact List.append_ne_nil_of_right_ne_nil _ (List.cons_ne_nil _ _)

theorem mem_stanzaNames_edit (i : Intent) (name : Text) (hx : i.scope = .stanza name)
    (hp : i.presence = .present) (d : Document) : name ∈ (i.edit d).stanzaNames := by
  have hmem := i.scope_mem_scopes_edit d hp
  rw [hx, Document.scopes_eq] at hmem
  simpa using hmem

section
variable (i j : Intent) (name : Text) (hx' : j.scope = .stanza name) (ha' : j.attr = none)
  (hp' : j.presence = .absent)

include hx' ha' hp'

theorem notMem_stanzaNames_roundTrip (d : Document) : name ∉ (roundTrip i j d).stanzaNames := by
  unfold roundTrip
  rw [(j.removesStanzas (i.edit d) ha' hp' name hx').stanzaNames_edit, List.mem_filter]
  simp

theorem notMem_stanzaNames_iterate_roundTrip (d : Document) (hd : name ∉ d.stanzaNames) (k : Nat) :
    name ∉ ((roundTrip i j)^[k] d).stanzaNames := by
  cases k with
  | zero => exact hd
  | succ k =>
    rw [Function.iterate_succ_apply']
    exact notMem_stanzaNames_roundTrip i j name hx' ha' hp' _

variable (hx : i.scope = .stanza name) (hp : i.presence = .present)

include hx hp

theorem roundTrip_of_missing (d : Document) (hd : name ∉ d.stanzaNames) :
    roundTrip i j d = ⟨d.lines ++ gap d, true⟩ := by
  have hs : d.span? i.scope = none := by
    rwa [d.mem_stanzaNames_iff, Option.not_isSome_iff_eq_none, ← hx] at hd
  obtain ⟨name', pre, hname, he, hpre, hlines⟩ := i.sections_edit_of_missing_eq d hs hp
  obtain rfl : name' = name := Scope.stanza.inj (hname.symm.trans hx)
  -- only the new stanza has the name, so only it goes
  have hback := j.sections_edit_of_absent_stanza (i.edit d) ha' hp' name' hx'
  rw [he, hx', List.filter_append, List.filter_cons_of_neg (by simp), List.filter_nil,
    List.append_nil, List.filter_eq_self.2 fun u hu => decide_eq_true (hpre u hu)] at hback
  have hend : (roundTrip i j d).ended = true :=
    (j.ended_edit_iff (i.edit d)).2 (Or.inl (i.ended_edit_of_missing d hs hp))
  have hkept : (roundTrip i j d).lines = d.lines ++ gap d := by
    unfold roundTrip
    rw [← Document.flatMap_lines_sections, hback, hlines]
  exact congrArg₂ Document.mk hkept hend

/-- The second round trip finds all that it would leave. -/
theorem roundTrip_roundTrip (d : Document) (hd : name ∉ d.stanzaNames) :
    roundTrip i j (roundTrip i j d) = roundTrip i j d := by
  have hnone := notMem_stanzaNames_roundTrip i j name hx' ha' hp' d
  rw [roundTrip_of_missing i j name hx' ha' hp' hx hp _ hnone,
    roundTrip_of_missing i j name hx' ha' hp' hx hp d hd, gap_append_gap, List.append_nil]

theorem iterate_succ_roundTrip (d : Document) (hd : name ∉ d.stanzaNames) (k : Nat) :
    (roundTrip i j)^[k + 1] d = ⟨d.lines ++ gap d, true⟩ := by
  have hfixed := roundTrip_roundTrip i j name hx' ha' hp' hx hp d hd
  rw [Function.iterate_succ_apply, Function.iterate_fixed hfixed,
    roundTrip_of_missing i j name hx' ha' hp' hx hp d hd]

/-- However often a stanza is made and removed, the lines in front of it grow by one blank line at
most, and by none if they end with one. -/
theorem iterate_roundTrip_eq (d : Document) (hd : name ∉ d.stanzaNames) (k : Nat) :
    (roundTrip i j)^[k + 1] d =
        ⟨if d.lines.getLast?.any Line.isBlank then d.lines else d.lines ++ [.blank], true⟩ ∧
      name ∉ ((roundTrip i j)^[k] d).stanzaNames ∧
      name ∈ (i.edit ((roundTrip i j)^[k] d)).stanzaNames := by
  refine ⟨?_, ?_, ?_⟩
  · rw [iterate_succ_roundTrip i j name hx' ha' hp' hx hp d hd]
    unfold gap
    split
    · rw [List.append_nil]
    · rfl
  · exact notMem_stanzaNames_iterate_roundTrip i j name hx' ha' hp' d hd k
  · exact mem_stanzaNames_edit i name hx hp _

end

/-- A last line without a newline gets one, and a blank line behind it. A line of blanks is blank
enough, also behind a header of another name. -/
theorem iterate_roundTrip_eq_of_unended :
    let i : Intent := ⟨.stanza ['s'], some ['a'], [['1']], .present, true, false⟩
    let j : Intent := ⟨.stanza ['s'], none, [], .absent, true, false⟩
    let d := Document.read ['s']
    let e := Document.read ['t', ':', '\n', ' ', '\t']
    i.scope = .stanza ['s'] ∧ i.presence = .present ∧ j.scope = .stanza ['s'] ∧ j.attr = none ∧
      j.presence = .absent ∧ ['s'] ∉ d.stanzaNames ∧ ['s'] ∉ e.stanzaNames ∧
      (roundTrip i j)^[3] d = ⟨[.kept ['s'], .blank], true⟩ ∧
      (roundTrip i j)^[2] e = ⟨[.kept ['t', ':'], .kept [' ', '\t']], true⟩ := by
  intro i j d e
  have hd : ['s'] ∉ d.stanzaNames := by decide
  have he : ['s'] ∉ e.stanzaNames := by decide
  obtain ⟨htrips, -⟩ := iterate_roundTrip_eq i j ['s'] rfl rfl rfl rfl rfl d hd 2
  obtain ⟨htrips', -⟩ := iterate_roundTrip_eq i j ['s'] rfl rfl rfl rfl rfl e he 1
  refine ⟨rfl, rfl, rfl, rfl, rfl, hd, he, ?_, ?_⟩
  · rw [htrips]
    decide
  · rw [htrips']
    decide

end Intent

end Stanzas
