import Mathlib.Data.List.Induction
import Mathlib.Data.List.ModifyLast
import Stanzas.Proofs.Scope.Index

/-!
# The index in one pass

The spans of a document and the lines of its attributes can be had in one pass over the lines, which
keeps the extents of the scopes so far and a table of the lines of each attribute (`Index.step`). A
header ends the last extent and starts a new one, and an attribute belongs to the last extent.

    d.index.extents = d.spans.map Span.extent                                   (extents_index)

For each span `s` of the document the table has the lines of every attribute, by the header of `s`:

    d.index.linesOf s.header? a = (s.occurrences a).map Place.line             (linesOf_index)
    d.index.attributesIn s.header? = s.places.map Place.line                   (attributesIn_index)

What the index tells of the lines so far (`Index.Tells`) it tells of one more line too, of whichever
kind that line is.
-/

namespace Stanzas

/-- What a pass keeps of a scope. -/
structure Extent where
  /-- The line of the header. -/
  header? : Option Nat
  name? : Option Text
  start : Nat
  stop : Nat
  /-- The last attribute line. -/
  last? : Option Nat
  deriving DecidableEq, Repr

/-- Where a new attribute line goes. -/
def Extent.appendLine (e : Extent) : Nat :=
  match e.last?, e.header? with
  | some line, _ => line + 1
  | none, some header => header + 1
  | none, none => e.start

namespace Span

/-- The line of the header, which tells spans of one scope from each other. -/
def header? (s : Span) : Option Nat := s.scope.name?.map fun _ => s.start

/-- What a pass keeps of a span. -/
def extent (s : Span) : Extent := ⟨s.header?, s.scope.name?, s.start, s.stop, s.lastAttribute?⟩

theorem appendLine_extent (s : Span) : s.extent.appendLine = s.appendLine := by
  unfold Extent.appendLine appendLine extent header?
  cases s.lastAttribute? <;> cases s.scope <;> rfl

end Span

/-- An attribute of the scope with the given header. -/
structure Slot where
  header? : Option Nat
  attr : Text
  deriving DecidableEq, Repr

instance : Hashable Slot := ⟨fun s => mixHash (hash s.header?) (hash (String.ofList s.attr))⟩

/-- What a pass over lines keeps: the extents of the scopes so far, and for each of them the lines
of its attributes. -/
structure Index where
  extents : List Extent
  table : Std.HashMap Slot (List Nat) := ∅

namespace Index

/-- The lines of an attribute in the scope with the given header. -/
def linesOf (x : Index) (header? : Option Nat) (a : Text) : List Nat :=
  x.table.getD ⟨header?, a⟩ []

/-- The attributes in the scope with the given header and their lines, as the table lists them. -/
def entries (x : Index) (header? : Option Nat) : List (Slot × List Nat) :=
  x.table.toList.filter (·.1.header? = header?)

/-- The lines of all attributes in the scope with the given header. -/
def attributesIn (x : Index) (header? : Option Nat) : List Nat :=
  ((x.entries header?).flatMap Prod.snd).mergeSort

/-- The index with one more line of a document that has `total` lines. -/
def step (total : Nat) (x : Index) (l : Line × Nat) : Index :=
  match l.1.kind, x.extents.getLast? with
  | .header name, _ =>
    { x with
      extents := x.extents.modifyLast (fun e => { e with stop := l.2 }) ++
        [⟨some l.2, some name, l.2, total, none⟩] }
  | .attribute a _, some e =>
    { extents := x.extents.modifyLast fun e => { e with last? := some l.2 }
      table := x.table.insert ⟨e.header?, a⟩ (x.linesOf e.header? a ++ [l.2]) }
  | _, _ => x

end Index

/-- The index of a document, made in one pass. -/
def Document.index (d : Document) : Index :=
  d.lines.zipIdx.foldl (Index.step d.lines.length)
    { extents := [⟨none, none, 0, d.lines.length, none⟩] }

/-! ## One more line -/

namespace Span

/-- The span with one more line. -/
def push (s : Span) (l : Line) : Span := { s with lines := s.lines ++ [l] }

variable (s : Span) (l : Line)

theorem places_push : (s.push l).places =
    s.places ++ (l.attribute?.map fun a => Place.mk s.stop a.1 a.2).toList := by
  unfold places push
  rw [List.zipIdx_append, List.filterMap_append]
  rfl

/-- An attribute line comes behind the others of its name. -/
theorem line_occurrences_push_of_attribute {b : Text} {v : Option Text}
    (hl : l.kind = .attribute b v) (a : Text) :
    ((s.push l).occurrences a).map Place.line =
      (s.occurrences a).map Place.line ++ if b = a then [s.stop] else [] := by
  have hattr : l.attribute? = some (b, v) := by simp [Line.attribute?, hl]
  unfold occurrences
  rw [places_push, List.filter_append, List.map_append, hattr]
  by_cases hab : b = a
  · simp [hab]
  · simp [hab]

theorem places_push_of_other (hl : l.attribute? = none) : (s.push l).places = s.places := by
  rw [places_push, hl]
  exact List.append_nil _

/-- The span that a header starts. -/
def opening (n : Nat) (name : Text) (l : Line) : Span := ⟨⟨.stanza name, [l]⟩, n⟩

theorem places_opening (n : Nat) (name : Text) (hl : l.kind = .header name) :
    (opening n name l).places = [] := by
  simp [places, opening, Line.attribute?, hl]

end Span

theorem spansFrom_append (n : Nat) (ss ts : List Section) :
    spansFrom n (ss ++ ts) =
      spansFrom n ss ++ spansFrom (n + (ss.flatMap Section.lines).length) ts := by
  induction ss generalizing n with
  | nil => rfl
  | cons s ss ih =>
    rw [List.cons_append, spansFrom, spansFrom, ih, List.cons_append, List.flatMap_cons,
      List.length_append, Nat.add_assoc]

namespace Document

variable (ls : List Line) (ended : Bool) (l : Line)

/-- A header at the end starts one more span. -/
theorem spans_append_header (name : Text) (hl : l.stanzaName? = some name) :
    spans ⟨ls ++ [l], ended⟩ = spans ⟨ls, ended⟩ ++ [.opening ls.length name l] := by
  let d : Document := ⟨ls, ended⟩
  have hsections : sections ⟨ls ++ [l], ended⟩ = d.sections ++ [⟨.stanza name, [l]⟩] := by
    rw [sections_eq_iff]
    constructor
    · refine d.areSections_sections.append ⟨.stanza name, [l]⟩ ?_ (by simp)
      exact ⟨l, [], rfl, hl, fun l h => absurd h List.not_mem_nil⟩
    · rw [List.flatMap_append, d.flatMap_lines_sections, List.flatMap_singleton]
  unfold spans
  rw [hsections, spansFrom_append, d.flatMap_lines_sections, Nat.zero_add]
  rfl

/-- Any other line goes to the last one. -/
theorem spans_append_other (hl : l.stanzaName? = none) (front : List Span) (s : Span)
    (h : spans ⟨ls, ended⟩ = front ++ [s]) :
    spans ⟨ls ++ [l], ended⟩ = front ++ [s.push l] := by
  let d : Document := ⟨ls, ended⟩
  obtain ⟨pre, last, hpre⟩ : ∃ pre last, d.sections = pre ++ [last] :=
    (List.eq_nil_or_concat' d.sections).resolve_left (List.cons_ne_nil _ _)
  have hcut := d.areSections_sections
  have hlines := d.flatMap_lines_sections
  rw [hpre] at hcut hlines
  have hproper : last.Proper := hcut.proper last (by simp)
  have hno : NoHeader [l] := fun k hk => by rwa [List.mem_singleton.1 hk]
  have hsections : sections ⟨ls ++ [l], ended⟩ =
      pre ++ [{ last with lines := last.lines ++ [l] }] := by
    rw [sections_eq_iff]
    refine ⟨hcut.replace _ (hproper.append [l] hno) rfl, ?_⟩
    show _ = d.lines ++ [l]
    rw [← hlines, List.flatMap_append, List.flatMap_append, List.flatMap_singleton,
      List.flatMap_singleton, List.append_assoc]
  have hspans : spans d =
      spansFrom 0 pre ++ [⟨last, 0 + (pre.flatMap Section.lines).length⟩] := by
    unfold spans
    rw [hpre, spansFrom_append]
    rfl
  obtain ⟨rfl, hs⟩ := List.append_inj' (h.symm.trans hspans) rfl
  obtain rfl := List.singleton_inj.1 hs
  unfold spans
  rw [hsections, spansFrom_append]
  rfl

/-- The last span ends with the document. -/
theorem exists_spans_eq_append (d : Document) :
    ∃ front s, d.spans = front ++ [s] ∧ s.stop = d.lines.length := by
  obtain ⟨front, s, hspans⟩ : ∃ front s, d.spans = front ++ [s] :=
    (List.eq_nil_or_concat' d.spans).resolve_left (List.cons_ne_nil _ _)
  have hstop := d.map_stop_spans
  rw [hspans, List.map_append] at hstop
  exact ⟨front, s, hspans, List.singleton_inj.1 (List.append_inj_right' hstop rfl)⟩

/-- Spans are told from each other by the lines of their headers. -/
theorem nodup_header?_spans (d : Document) : (d.spans.map Span.header?).Nodup := by
  have hmap := congrArg (List.map fun k : Scope × Nat => k.1.name?.map fun _ => k.2) d.map_spans
  rw [List.map_map, List.map_cons, List.map_map] at hmap
  have hheaders : (d.headers.map fun h => some h.1).Nodup := by
    rw [List.Nodup, List.pairwise_map]
    refine (pairwise_headersFrom 0 d.lines).imp ?_
    intro h k hlt heq
    exact Nat.ne_of_lt hlt (Option.some.inj heq)
  have hnone : none ∉ d.headers.map fun h => some h.1 := by simp
  exact hmap ▸ List.nodup_cons.2 ⟨hnone, hheaders⟩

end Document

/-! ## The pass -/

namespace Index

/-- The lines of an attribute, by what spans they are in. -/
def linesIn (ss : List Span) (header? : Option Nat) (a : Text) : List Nat :=
  (ss.filter (·.header? = header?)).flatMap fun s => (s.occurrences a).map Place.line

theorem linesIn_append (ss : List Span) (s : Span) (header? : Option Nat) (a : Text) :
    linesIn (ss ++ [s]) header? a =
      linesIn ss header? a ++
        if s.header? = header? then (s.occurrences a).map Place.line else [] := by
  unfold linesIn
  rw [List.filter_append, List.flatMap_append]
  by_cases h : s.header? = header?
  · simp [h]
  · simp [h]

theorem linesOf_insert (x : Index) (extents : List Extent) (h header? : Option Nat) (b a : Text)
    (ns : List Nat) : linesOf ⟨extents, x.table.insert ⟨h, b⟩ ns⟩ header? a =
      if h = header? ∧ b = a then ns else x.linesOf header? a := by
  unfold linesOf
  rw [Std.HashMap.getD_insert]
  simp only [beq_iff_eq, Slot.mk.injEq]

theorem mem_entries (x : Index) (header? : Option Nat) (e : Slot × List Nat) :
    e ∈ x.entries header? ↔
      e.1.header? = header? ∧ e.1 ∈ x.table ∧ e.2 = x.linesOf header? e.1.attr := by
  obtain ⟨⟨h, a⟩, ns⟩ := e
  unfold entries linesOf
  rw [List.mem_filter, Std.HashMap.mem_toList_iff_getElem?_eq_some, decide_eq_true_iff, and_comm]
  apply and_congr_right
  intro hheader
  obtain rfl : h = header? := hheader
  rw [Std.HashMap.getElem?_eq_some_iff, ← exists_prop]
  apply exists_congr
  intro hmem
  have hget : x.table[(⟨h, a⟩ : Slot)] = x.table.getD ⟨h, a⟩ [] := Std.HashMap.getElem_eq_getD
  rw [hget]
  exact eq_comm

theorem nodup_attr_entries (x : Index) (header? : Option Nat) :
    ((x.entries header?).map (·.1.attr)).Nodup := by
  rw [List.Nodup, List.pairwise_map]
  refine (Std.HashMap.distinct_keys_toList.filter _).imp_of_mem ?_
  rintro ⟨⟨h, a⟩, ns⟩ ⟨⟨h', b⟩, ms⟩ he he' hne hab
  obtain ⟨rfl, -⟩ := (x.mem_entries header? _).1 he
  obtain ⟨rfl, -⟩ := (x.mem_entries h _).1 he'
  exact ne_of_beq_false hne (congrArg (Slot.mk h') hab)

/-- What a pass has to know of the spans so far, the last of which is still open. -/
structure Tells (total : Nat) (ss : List Span) (x : Index) : Prop where
  extents : x.extents = (ss.map Span.extent).modifyLast fun e => { e with stop := total }
  lines : ∀ header? a, x.linesOf header? a = linesIn ss header? a
  /-- Attributes without lines are not in the table. -/
  full : ∀ k ∈ x.table, x.linesOf k.header? k.attr ≠ []

namespace Tells

variable {total : Nat} {front : List Span} {s : Span} {x : Index} {l : Line}

theorem extents_eq (h : x.Tells total (front ++ [s])) :
    x.extents = front.map Span.extent ++ [{ s.extent with stop := total }] := by
  rw [h.extents, List.map_append, List.map_singleton, List.modifyLast_concat]

/-- A header ends the last span and starts one that has no attributes yet. -/
theorem header {name : Text} (h : x.Tells total (front ++ [s])) (hl : l.kind = .header name) :
    (x.step total (l, s.stop)).Tells total (front ++ [s] ++ [.opening s.stop name l]) := by
  have hplaces := Span.places_opening l s.stop name hl
  have hstep : x.step total (l, s.stop) =
      { x with extents := front.map Span.extent ++ [s.extent] ++
          [⟨some s.stop, some name, s.stop, total, none⟩] } := by
    unfold step
    simp only [hl, h.extents_eq, List.modifyLast_concat]
    rfl
  rw [hstep]
  constructor
  · have hextent : { (Span.opening s.stop name l).extent with stop := total } =
        (⟨some s.stop, some name, s.stop, total, none⟩ : Extent) := by
      unfold Span.extent Span.lastAttribute?
      rw [hplaces]
      rfl
    rw [List.map_append, List.map_append, List.map_singleton, List.map_singleton,
      List.modifyLast_concat, hextent]
  · intro header? a
    have hold := h.lines header? a
    rw [linesIn_append, Span.occurrences, hplaces, List.filter_nil, List.map_nil, ite_self,
      List.append_nil]
    exact hold
  · exact h.full

/-- An attribute goes to the last span and to the end of its list. -/
theorem attr {b : Text} {v : Option Text} (h : x.Tells total (front ++ [s]))
    (hl : l.kind = .attribute b v) :
    (x.step total (l, s.stop)).Tells total (front ++ [s.push l]) := by
  have hattr : l.attribute? = some (b, v) := by simp [Line.attribute?, hl]
  have hstep : x.step total (l, s.stop) =
      { extents := front.map Span.extent ++
          [{ s.extent with stop := total, last? := some s.stop }]
        table := x.table.insert ⟨s.header?, b⟩ (x.linesOf s.header? b ++ [s.stop]) } := by
    unfold step
    simp only [hl, h.extents_eq, List.modifyLast_concat, List.getLast?_concat]
    rfl
  rw [hstep]
  constructor
  · have hextent : { (s.push l).extent with stop := total } =
        { s.extent with stop := total, last? := some s.stop } := by
      simp only [Span.extent, Span.lastAttribute?, s.places_push, hattr, Option.map_some,
        Option.toList_some, List.getLast?_concat]
      rfl
    rw [List.map_append, List.map_singleton, List.modifyLast_concat, hextent]
  · intro header? a
    have hold := h.lines header? a
    rw [linesIn_append] at hold
    rw [linesOf_insert, linesIn_append, s.line_occurrences_push_of_attribute l hl,
      show (s.push l).header? = s.header? from rfl]
    by_cases hheader : s.header? = header?
    · by_cases hab : b = a
      · subst hheader hab
        rw [if_pos ⟨rfl, rfl⟩, if_pos rfl, if_pos rfl, hold, if_pos rfl, List.append_assoc]
      · rw [if_neg fun h => hab h.2, hold, if_neg hab, List.append_nil]
    · rw [if_neg fun h => hheader h.1, hold, if_neg hheader, if_neg hheader]
  · intro k hk
    rw [linesOf_insert]
    split
    · simp
    · next hne =>
      have hold : k ∈ x.table := by
        rcases Std.HashMap.mem_insert.1 hk with heq | hold
        · obtain rfl := eq_of_beq heq
          exact absurd ⟨rfl, rfl⟩ hne
        · exact hold
      exact h.full k hold

/-- Any other line only makes the last span longer. -/
theorem other (h : x.Tells total (front ++ [s])) (hheader : l.stanzaName? = none)
    (hattr : l.attribute? = none) :
    (x.step total (l, s.stop)).Tells total (front ++ [s.push l]) := by
  have hplaces := s.places_push_of_other l hattr
  have hstep : x.step total (l, s.stop) = x := by
    unfold Line.stanzaName? at hheader
    unfold Line.attribute? at hattr
    unfold step
    cases hk : l.kind <;> simp_all
  rw [hstep]
  constructor
  · have hextent : { (s.push l).extent with stop := total } =
        { s.extent with stop := total } := by
      unfold Span.extent Span.lastAttribute?
      rw [hplaces]
      rfl
    rw [h.extents_eq, List.map_append, List.map_singleton, List.modifyLast_concat, hextent]
  · intro header? a
    have hold := h.lines header? a
    rw [linesIn_append] at hold ⊢
    unfold Span.occurrences at hold ⊢
    rw [hplaces]
    exact hold
  · exact h.full

end Tells

/-- The pass over lines tells of the spans of just these lines. -/
theorem tells_foldl (total : Nat) (ended : Bool) (ls : List Line) :
    (ls.zipIdx.foldl (step total) { extents := [⟨none, none, 0, total, none⟩] }).Tells total
      (Document.spans ⟨ls, ended⟩) := by
  induction ls using List.reverseRecOn with
  | nil =>
    constructor
    · rfl
    · intro header? a
      have hspans : Document.spans ⟨[], ended⟩ = [] ++ [⟨⟨.top, []⟩, 0⟩] := rfl
      have hnone : (Span.mk ⟨.top, []⟩ 0).occurrences a = [] := rfl
      rw [hspans, linesIn_append, hnone, List.map_nil, ite_self]
      exact Std.HashMap.getD_empty
    · exact fun k hk => absurd hk Std.HashMap.not_mem_empty
  | append_singleton ls l ih =>
    obtain ⟨front, s, hspans, hstop⟩ := Document.exists_spans_eq_append ⟨ls, ended⟩
    replace hstop : 0 + ls.length = s.stop := (Nat.zero_add _).trans hstop.symm
    rw [List.zipIdx_append, List.foldl_append, hstop]
    rw [hspans] at ih
    have hother := fun hname : l.stanzaName? = none =>
      Document.spans_append_other ls ended l hname front s hspans
    rcases hk : l.kind with _ | _ | name | ⟨b, v⟩
    case header =>
      rw [Document.spans_append_header ls ended l name (by simp [Line.stanzaName?, hk]), hspans,
        ← Nat.zero_add ls.length, hstop]
      exact ih.header hk
    all_goals rw [hother (by simp [Line.stanzaName?, hk])]
    case blank | comment =>
      exact ih.other (by simp [Line.stanzaName?, hk]) (by simp [Line.attribute?, hk])
    exact ih.attr hk

end Index

namespace Document

variable (d : Document)

theorem extents_index : d.index.extents = d.spans.map Span.extent := by
  obtain ⟨front, s, hspans, hstop⟩ := d.exists_spans_eq_append
  have h := Index.tells_foldl d.lines.length d.ended d.lines
  rw [show Document.mk d.lines d.ended = d from rfl, hspans, ← hstop] at h
  unfold index
  rw [hspans, ← hstop, h.extents_eq, List.map_append]
  rfl

/-- The extent that a scope resolves to is the first one with its name. -/
theorem find?_extents_index (x : Scope) :
    d.index.extents.find? (·.name? = x.name?) = (d.span? x).map Span.extent := by
  have hname : ∀ y : Scope, y.name? = x.name? ↔ y = x := by
    intro y
    cases x <;> cases y <;> simp [Scope.name?]
  rw [extents_index, List.find?_map]
  unfold span?
  congr 2
  funext s
  exact decide_eq_decide.2 (hname s.scope)

theorem linesOf_index (s : Span) (hs : s ∈ d.spans) (a : Text) :
    d.index.linesOf s.header? a = (s.occurrences a).map Place.line := by
  have hnodup := d.nodup_header?_spans
  have honly : d.spans.filter (·.header? = s.header?) = [s] := by
    have hinj := List.inj_on_of_nodup_map hnodup
    have heq : ∀ t ∈ d.spans, decide (t.header? = s.header?) = (t == s) := by
      intro t ht
      rw [Bool.eq_iff_iff, decide_eq_true_iff, beq_iff_eq]
      exact ⟨fun h => hinj ht hs h, congrArg Span.header?⟩
    rw [List.filter_congr heq, List.filter_beq, List.count_eq_one_of_mem hnodup.of_map hs]
    rfl
  have h := (Index.tells_foldl d.lines.length d.ended d.lines).lines s.header? a
  unfold Index.linesIn at h
  rw [show Document.mk d.lines d.ended = d from rfl, honly, List.flatMap_singleton] at h
  exact h

/-- The table may list the attributes in any order. -/
theorem attributesIn_index (s : Span) (hs : s ∈ d.spans) :
    d.index.attributesIn s.header? = s.places.map Place.line := by
  have htells := Index.tells_foldl d.lines.length d.ended d.lines
  have hlines := d.linesOf_index s hs
  have hentries := d.index.mem_entries s.header?
  have hall : ∀ a, a ∈ (d.index.entries s.header?).map (·.1.attr) ↔ s.occurrences a ≠ [] := by
    intro a
    rw [List.mem_map, ne_eq, ← List.map_eq_nil_iff (f := Place.line), ← hlines]
    constructor
    · rintro ⟨e, he, rfl⟩
      obtain ⟨hheader, hmem, -⟩ := (hentries e).1 he
      rw [← hheader]
      exact htells.full e.1 hmem
    · intro hne
      have hmem : (⟨s.header?, a⟩ : Slot) ∈ d.index.table := by
        by_contra hnone
        exact hne (Std.HashMap.getD_eq_fallback hnone)
      exact ⟨(⟨s.header?, a⟩, d.index.linesOf s.header? a), (hentries _).2 ⟨rfl, hmem, rfl⟩, rfl⟩
  have hjoined : (d.index.entries s.header?).flatMap Prod.snd =
      ((d.index.entries s.header?).map (·.1.attr)).flatMap fun a =>
        (s.occurrences a).map Place.line := by
    rw [List.flatMap_map]
    apply List.flatMap_congr
    intro e he
    obtain ⟨-, -, hvalue⟩ := (hentries e).1 he
    rw [hvalue, hlines]
  unfold Index.attributesIn
  rw [hjoined]
  exact s.mergeSort_line_occurrences _ (d.index.nodup_attr_entries s.header?) hall

end Document

end Stanzas
