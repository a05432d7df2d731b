import Mathlib.Data.List.Basic
import Stanzas.Proofs.Plan.Reconcile
import Stanzas.Proofs.Plan.Stay

/-!
# Where new lines go

Values that an attribute lacks are written in one block behind the last attribute of the scope, of
whatever name (`Intent.AppendsValues`); a stanza that is missing is written behind all lines, after
a blank one (`Intent.MakesStanza`). The next reader finds each new attribute line in the first
stanza of the name, and each old line where it was (`appends_of_present`).
-/

namespace Stanzas

/-! ## The line for a new attribute -/

namespace Span

variable (s : Span)

theorem appendLine_of_lastAttribute?_eq_some (n : Nat) (h : s.lastAttribute? = some n) :
    s.appendLine = n + 1 := by
  unfold appendLine
  rw [h]

theorem appendLine_of_stanza (name : Text) (h : s.places = []) (hx : s.scope = .stanza name) :
    s.appendLine = s.start + 1 := by
  unfold appendLine
  rw [s.lastAttribute?_eq_none_iff.2 h, hx]

theorem appendLine_of_top (h : s.places = []) (hx : s.scope = .top) : s.appendLine = s.start := by
  unfold appendLine
  rw [s.lastAttribute?_eq_none_iff.2 h, hx]

end Span

namespace Document

variable (d : Document) (s : Span) (hs : s ∈ d.spans)

include hs

/-- The line behind the last attribute of a span. -/
theorem appendLine_of_last (n : Nat) (a : Text) (hn : s.Covers n) (ha : d.HasAttr n a)
    (hlast : ∀ m b, s.Covers m → d.HasAttr m b → m ≤ n) : s.appendLine = n + 1 := by
  apply s.appendLine_of_lastAttribute?_eq_some
  rw [s.lastAttribute?_eq_some_iff, d.mem_line_places_iff s hs]
  refine ⟨⟨hn, a, ha⟩, ?_⟩
  intro m hm
  obtain ⟨hm, b, hb⟩ := (d.mem_line_places_iff s hs m).1 hm
  exact hlast m b hm hb

theorem places_eq_nil_of_not_hasAttr (h : ∀ n a, s.Covers n → ¬ d.HasAttr n a) :
    s.places = [] := by
  rw [← List.map_eq_nil_iff (f := Place.line), List.eq_nil_iff_forall_not_mem]
  intro n hn
  obtain ⟨hn, a, ha⟩ := (d.mem_line_places_iff s hs n).1 hn
  exact h n a hn ha

/-- A stanza starts with its header. -/
theorem opens_start (name : Text) (hx : s.scope = .stanza name) : d.Opens s.start name :=
  (d.inStanzaAt_of_covers s hs name hx s.start (d.covers_start s hs (by simp [hx]))).1

end Document

namespace Intent

/-! ## Values that are missing -/

/-- How an attribute gets the values that it lacks: in one block in front of line `k`. -/
structure AppendsValues (i : Intent) (a : Text) (d : Document) (s : Span) (k : Nat) : Prop where
  /-- No other line changes. -/
  lines_edit : (i.edit d).lines =
    d.lines.take k ++ (s.lacking a i.desired).map (Line.attribute a) ++ d.lines.drop k
  insertedAt_eq : ∀ n, (i.plan d).1.insertedAt n =
    if n = k then (s.lacking a i.desired).map (Line.attribute a) else []
  /-- The block is behind the last attribute of the scope, of whatever name. -/
  behind_last : ∀ n b, s.Covers n → d.HasAttr n b →
    (∀ m c, s.Covers m → d.HasAttr m c → m ≤ n) → k = n + 1
  /-- Without attributes it is behind the header, or in front of all lines. -/
  behind_header : (∀ n b, s.Covers n → ¬ d.HasAttr n b) → ∀ name, i.scope = .stanza name →
    d.Opens s.start name ∧ k = s.start + 1
  in_front : (∀ n b, s.Covers n → ¬ d.HasAttr n b) → i.scope = .top → k = 0
  /-- Only the lines behind the block get other numbers. -/
  blockLine_eq : (i.plan d).1.blockLine k = k
  newLine_eq : ∀ n, (i.plan d).1.newLine n =
    if n < k then n else n + (s.lacking a i.desired).length

section
variable (i : Intent) (a : Text) (s : Span) (d : Document) (hp : i.presence = .present)
  (ha : i.attr = some a) (hs : d.span? i.scope = some s)
  (hadd : i.exclusive = false ∨ s.occurrences a = [])

include hadd

theorem attrLineIn_of_adding : i.attrLineIn s a = s.appendLine := by
  rcases i.attrLineIn_eq s a with ⟨heq, -⟩ | ⟨⟨-, he⟩, hocc⟩
  · exact heq
  · rcases hadd with hadd | hadd
    · rw [hadd] at he
      cases he
    · rw [hadd] at hocc
      simp at hocc

include hp ha hs

theorem not_removes_of_adding_values (n : Nat) : ¬ i.Removes d n := by
  rw [i.removes_iff_of_attr a s d ha hs]
  rintro ⟨p, hmem, -, hdrops⟩
  rcases hadd with hadd | hadd
  · unfold drops at hdrops
    rw [hp, hadd] at hdrops
    cases hdrops
  · rw [hadd] at hmem
    cases hmem

theorem appendsValues : i.AppendsValues a d s s.appendLine := by
  have hmem : s ∈ d.spans := List.mem_of_find?_eq_some hs
  have hkept := i.not_removes_of_adding_values a s d hp ha hs hadd
  have hline : i.insertLine d = s.appendLine :=
    (i.insertLine_of_attr a s d ha hs).trans (i.attrLineIn_of_adding a s hadd)
  have hnew : i.newLines d = (s.lacking a i.desired).map (Line.attribute a) := by
    rw [i.newLines_of_attr a s d ha hs, i.missing_eq_lacking a s hp]
  have hdel : ∀ n, ¬ (i.plan d).1.Deletes n := fun n hn => hkept n ((i.deletes_plan d n).1 hn)
  have hins := i.insertedAt_plan d
  rw [hline, hnew] at hins
  obtain ⟨-, -, -, -, hscope, -⟩ := d.sections_of_span? _ s hs
  constructor
  case lines_edit =>
    rw [i.lines_edit_of_not_removes d (i.insertLine_le_length d) hkept, hline, hnew]
  case insertedAt_eq => exact hins
  case behind_last => exact d.appendLine_of_last s hmem
  case behind_header =>
    intro hnone name hx
    rw [← hscope] at hx
    exact ⟨d.opens_start s hmem name hx,
      s.appendLine_of_stanza name (d.places_eq_nil_of_not_hasAttr s hmem hnone) hx⟩
  case in_front =>
    intro hnone hx
    have hplaces := d.places_eq_nil_of_not_hasAttr s hmem hnone
    rw [s.appendLine_of_top hplaces (hscope.trans hx)]
    rw [hx, d.span?_top] at hs
    rw [← Option.some.inj hs]
  case blockLine_eq =>
    rw [(i.plan d).1.blockLine_of_insertedAt _ _ hdel hins, if_pos (Nat.le_refl _)]
  case newLine_eq =>
    intro n
    rw [(i.plan d).1.newLine_of_insertedAt _ _ hdel hins, List.length_map]

end

/-! ## Stanzas that are missing -/

/-- The lines of a stanza that is made, behind its header. -/
def bodyLines (i : Intent) : List Line :=
  match i.attr with
  | none => []
  | some a => i.desired.map (Line.attribute a)

/-- How a stanza that is missing is made: behind all lines and a blank one. -/
structure MakesStanza (i : Intent) (d : Document) (name : Text) : Prop where
  scope_eq : i.scope = .stanza name
  lines_edit : (i.edit d).lines = d.lines ++ (gap d ++ .header name :: i.bodyLines)
  insertedAt_eq : ∀ n, (i.plan d).1.insertedAt n =
    if n = d.lines.length then gap d ++ .header name :: i.bodyLines else []
  /-- The blank line is new, unless the document ends with one. -/
  gap_of_blank : ∀ l, d.lines.getLast? = some l → l.isBlank = true → gap d = []
  gap_of_not_blank : (∀ l, d.lines.getLast? = some l → l.isBlank = false) → gap d = [.blank]
  blank_in_front : ∃ l, (d.lines ++ gap d).getLast? = some l ∧ l.isBlank = true
  /-- No line gets another number. -/
  blockLine_eq : (i.plan d).1.blockLine d.lines.length = d.lines.length
  newLine_eq : ∀ n, n < d.lines.length → (i.plan d).1.newLine n = n

section
variable (i : Intent) (d : Document) (hs : d.span? i.scope = none) (hp : i.presence = .present)

include hs hp

theorem attrLines_of_missing : i.attrLines d = i.bodyLines := by
  unfold bodyLines
  cases ha : i.attr with
  | none => exact i.attrLines_of_attr_eq_none d ha
  | some a => exact i.attrLines_of_span?_eq_none d hs hp a ha

theorem makesStanza : ∃ name, i.MakesStanza d name := by
  obtain ⟨name, hname, hlines⟩ := i.lines_edit_of_missing d hs hp
  have hdel : ∀ n, ¬ (i.plan d).1.Deletes n := i.deletes_plan_of_span?_eq_none d hs
  have hins := i.insertedAt_plan_of_missing d hs hp name hname
  rw [i.attrLines_of_missing d hs hp] at hins
  refine ⟨name, ?_⟩
  constructor
  case scope_eq => exact hname
  case lines_edit => rw [hlines, i.attrLines_of_missing d hs hp]
  case insertedAt_eq => exact hins
  case gap_of_blank =>
    intro l hl hblank
    unfold gap
    rw [hl]
    exact if_pos hblank
  case gap_of_not_blank =>
    intro hblank
    unfold gap
    rw [if_neg]
    intro hany
    obtain ⟨l, hl, hb⟩ := (Option.any_eq_true _ _).1 hany
    rw [hblank l hl] at hb
    cases hb
  case blank_in_front =>
    unfold gap
    split
    · next hblank =>
      obtain ⟨l, hl, hb⟩ := (Option.any_eq_true _ _).1 hblank
      exact ⟨l, by rwa [List.append_nil], hb⟩
    · exact ⟨.blank, List.getLast?_concat, rfl⟩
  case blockLine_eq =>
    rw [(i.plan d).1.blockLine_of_insertedAt _ _ hdel hins, if_pos (Nat.le_refl _)]
  case newLine_eq =>
    intro n hn
    rw [(i.plan d).1.newLine_of_insertedAt _ _ hdel hins, if_pos hn]

/-- The new stanza is the one that its name resolves to. -/
theorem span?_edit_of_missing : ∃ name, i.scope = .stanza name ∧ (i.edit d).span? i.scope =
    some ⟨⟨.stanza name, .header name :: i.attrLines d⟩, (d.lines ++ gap d).length⟩ := by
  obtain ⟨name, pre, hname, he, hpre, hlines⟩ := i.sections_edit_of_missing_eq d hs hp
  have hspan := (i.edit d).span?_of_sections pre [] _ he hpre
  rw [hlines] at hspan
  exact ⟨name, hname, hname ▸ hspan⟩

theorem mem_places_edit_of_missing : ∃ t, (i.edit d).span? i.scope = some t ∧
    ∀ r a v, (i.newLines d)[r]? = some (.attribute a v) →
      ⟨d.lines.length + r, a, v⟩ ∈ t.places := by
  obtain ⟨name, hname, hspan⟩ := i.span?_edit_of_missing d hs hp
  refine ⟨_, hspan, ?_⟩
  intro r a v hr
  rw [i.newLines_of_missing d hs hp name hname] at hr
  -- the blank line is no attribute
  have hle : (gap d).length ≤ r := by
    by_contra hlt
    rw [List.getElem?_append_left (by omega)] at hr
    have hblank := List.mem_of_getElem? hr
    unfold gap at hblank
    split at hblank
    · cases hblank
    · cases List.mem_singleton.1 hblank
  rw [List.getElem?_append_right hle] at hr
  rw [Span.mem_places_iff, List.length_append]
  refine ⟨by simp only; omega, .attribute a v, ?_, rfl⟩
  rw [← hr]
  congr 1
  simp only
  omega

end

/-! ## What the next reader finds -/

section
variable (i : Intent) (d : Document)

theorem mem_places_edit_of_attr (a : Text) (ha : i.attr = some a) (s : Span)
    (hs : d.span? i.scope = some s) : ∃ t, (i.edit d).span? i.scope = some t ∧
    ∀ r b v, (i.newLines d)[r]? = some (.attribute b v) →
      ⟨(i.plan d).1.blockLine (i.insertLine d) + r, b, v⟩ ∈ t.places := by
  refine ⟨_, i.span?_edit_of_attr a ha d s hs, ?_⟩
  intro r b v hr
  rw [i.newLines_of_attr a s d ha hs, List.getElem?_map] at hr
  obtain ⟨w, hw, heq⟩ := Option.map_eq_some_iff.1 hr
  obtain ⟨rfl, rfl⟩ := Line.attribute.inj heq
  have hle := i.insertLine_le_length d
  have hocc := i.mem_occurrences_edit_of_attr a ha d s hs r w hw
  have hlen := (i.plan d).1.length_remaining_of_insertedAt_eq_nil 0
    (d.lines.take (i.insertLine d)) fun m _ hm => by
      rw [List.length_take_of_le hle] at hm
      rw [i.insertedAt_plan d, if_neg (by omega)]
  rw [List.length_take_of_le hle, i.insertLine_of_attr a s d ha hs, Patch.blockLine,
    Nat.zero_add, Nat.zero_add] at hlen
  rw [i.insertLine_of_attr a s d ha hs, ← hlen]
  exact ((Span.mem_occurrences_iff _ a _).1 hocc).1

/-- New attributes are found in the first span of the scope. -/
theorem mem_places_edit (hp : i.presence = .present) : ∃ t, (i.edit d).span? i.scope = some t ∧
    ∀ k r a v, ((i.plan d).1.insertedAt k)[r]? = some (.attribute a v) →
      ⟨(i.plan d).1.blockLine k + r, a, v⟩ ∈ t.places := by
  -- there are new lines at one number only
  have key : ∀ t : Span, (∀ r a v, (i.newLines d)[r]? = some (.attribute a v) →
      ⟨(i.plan d).1.blockLine (i.insertLine d) + r, a, v⟩ ∈ t.places) →
      ∀ k r a v, ((i.plan d).1.insertedAt k)[r]? = some (.attribute a v) →
        ⟨(i.plan d).1.blockLine k + r, a, v⟩ ∈ t.places := by
    intro t ht k r a v hr
    rw [i.insertedAt_plan d] at hr
    split at hr
    · next heq => exact heq ▸ ht r a v hr
    · cases hr
  cases hs : d.span? i.scope with
  | none =>
    obtain ⟨t, hspan, hplaces⟩ := i.mem_places_edit_of_missing d hs hp
    obtain ⟨name, hmakes⟩ := i.makesStanza d hs hp
    refine ⟨t, hspan, key t ?_⟩
    rwa [i.insertLine_of_span?_eq_none d hs, hmakes.blockLine_eq]
  | some s =>
    cases ha : i.attr with
    | some a =>
      obtain ⟨t, hspan, hplaces⟩ := i.mem_places_edit_of_attr d a ha s hs
      exact ⟨t, hspan, key t hplaces⟩
    | none =>
      have hnew : i.newLines d = [] := by
        unfold newLines attrLines
        rw [hs, ha]
      have hkept : ∀ n, ¬ i.Removes d n := by
        intro n hn
        unfold Removes at hn
        simp only [ha, hp] at hn
      refine ⟨s, (congrArg (·.span? i.scope) (i.edit_eq_self d hkept hnew)).trans hs, key s ?_⟩
      rw [hnew]
      intro r a v hr
      cases hr

theorem appends_of_present (hp : i.presence = .present) :
    (∀ a s, i.attr = some a → d.span? i.scope = some s →
      i.exclusive = false ∨ s.occurrences a = [] → ∃ k, i.AppendsValues a d s k) ∧
    (d.span? i.scope = none → ∃ name, i.MakesStanza d name) ∧
    (∃ t, (i.edit d).span? i.scope = some t ∧
      ∀ k r a v, ((i.plan d).1.insertedAt k)[r]? = some (.attribute a v) →
        ⟨(i.plan d).1.blockLine k + r, a, v⟩ ∈ t.places) ∧
    (i.plan d).1.KeepsSpans d := by
  refine ⟨?_, fun hs => i.makesStanza d hs hp, i.mem_places_edit d hp, i.keepsSpans_plan d⟩
  intro a s ha hs hadd
  exact ⟨_, i.appendsValues a s d hp ha hs hadd⟩

end

/-- Behind another attribute, and in front of the comment that ends the stanza. -/
theorem appends_of_present_before_comment :
    let i : Intent := ⟨.stanza ['s'], some ['a'], [['2']], .present, false, false⟩
    let d := Document.read ['s', ':', '\n', 'b', '=', '1', '\n', '#', '\n', 't', ':']
    let s : Span := ⟨⟨.stanza ['s'], [.kept ['s', ':'], .kept ['b', '=', '1'], .kept ['#']]⟩, 0⟩
    i.presence = .present ∧ d.span? i.scope = some s ∧ s.lacking ['a'] i.desired = [some ['2']] ∧
      i.AppendsValues ['a'] d s 2 ∧ (i.plan d).1.KeepsSpans d := by
  intro i d s
  have hs : d.span? i.scope = some s := by decide
  obtain ⟨happends, -, -, hkeeps⟩ := i.appends_of_present d rfl
  obtain ⟨k, hk⟩ := happends ['a'] s rfl hs (Or.inl rfl)
  have htwo : k = 2 := by
    have hblock := hk.insertedAt_eq 2
    by_contra hne
    rw [if_neg (Ne.symm hne)] at hblock
    revert hblock
    decide
  exact ⟨rfl, hs, by decide, htwo ▸ hk, hkeeps⟩

end Intent

end Stanzas
