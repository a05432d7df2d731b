import Mathlib.Data.List.Nodup
import Mathlib.Data.List.Sort
import Stanzas.Proofs.Scope.Places
import Stanzas.Proofs.Scope.Range

/-!
# Documents by line numbers

The spans of a document part its lines, and each attribute line is listed just once, in the span that
has it and under its own name. All that an edit looks up can so be told from the numbers of the
headers (`Document.headers`) and those of the attributes (`Document.HasAttr`):

    d.spans.map (fun s => (s.scope, s.start)) =
      (.top, 0) :: d.headers.map fun h => (.stanza h.2, h.1)                            (map_spans)

`Span.Indexed` is what is known of one span, `Document.Indexed` what is known of all of them.
-/

namespace Stanzas

/-- Whether line `n` is in a span. -/
def Span.Covers (s : Span) (n : Nat) : Prop := s.start ≤ n ∧ n < s.stop

instance (s : Span) (n : Nat) : Decidable (s.Covers n) := inferInstanceAs (Decidable (_ ∧ _))

namespace Document

/-- The numbers of the headers among lines, the first of which has the number `n`, and the names in
them. -/
def headersFrom (n : Nat) (ls : List Line) : List (Nat × Text) :=
  (ls.zipIdx n).filterMap fun l => l.1.stanzaName?.map (l.2, ·)

/-- The numbers of the headers, and the names in them. -/
def headers (d : Document) : List (Nat × Text) := headersFrom 0 d.lines

/-- Whether line `n` gives some value to an attribute. -/
def HasAttr (d : Document) (n : Nat) (a : Text) : Prop :=
  ∃ l ∈ d.lines[n]?, ∃ v, l.kind = .attribute a v

/-! ## Headers -/

theorem mem_headersFrom (n : Nat) (ls : List Line) (h : Nat × Text) :
    h ∈ headersFrom n ls ↔ n ≤ h.1 ∧ ∃ l ∈ ls[h.1 - n]?, l.stanzaName? = some h.2 := by
  unfold headersFrom
  rw [List.mem_filterMap]
  constructor
  · rintro ⟨⟨l, m⟩, hl, hh⟩
    obtain ⟨name, hname, rfl⟩ := Option.map_eq_some_iff.1 hh
    obtain ⟨hle, hl⟩ := List.mk_mem_zipIdx_iff_le_and_getElem?_sub.1 hl
    exact ⟨hle, l, hl, hname⟩
  · rintro ⟨hle, l, hl, hname⟩
    refine ⟨(l, h.1), List.mk_mem_zipIdx_iff_le_and_getElem?_sub.2 ⟨hle, hl⟩, ?_⟩
    simp only [hname, Option.map_some]

theorem mem_headers (d : Document) (n : Nat) (name : Text) :
    (n, name) ∈ d.headers ↔ d.Opens n name := by
  unfold headers Opens
  rw [mem_headersFrom]
  exact and_iff_right (Nat.zero_le n)

theorem pairwise_headersFrom (n : Nat) (ls : List Line) :
    (headersFrom n ls).Pairwise fun h k => h.1 < k.1 := by
  induction ls generalizing n with
  | nil => exact List.Pairwise.nil
  | cons l ls ih =>
    unfold headersFrom at ih ⊢
    rw [List.zipIdx_cons, List.filterMap_cons]
    cases hname : l.stanzaName? with
    | none => exact ih (n + 1)
    | some name =>
      refine List.Pairwise.cons ?_ (ih (n + 1))
      intro k hk
      exact ((mem_headersFrom (n + 1) ls k).1 hk).1

/-! ## Spans -/

/-- Behind the lines without a header there is one section for each header. -/
theorem map_spansFrom_cutSections (n : Nat) (ls : List Line) :
    (spansFrom (n + (cutSections ls).1.length) (cutSections ls).2).map
        (fun s => (s.scope, s.start)) =
      (headersFrom n ls).map fun h => (.stanza h.2, h.1) := by
  induction ls generalizing n with
  | nil => rfl
  | cons l ls ih =>
    have hls := ih (n + 1)
    unfold headersFrom at hls ⊢
    rw [List.zipIdx_cons, List.filterMap_cons]
    unfold cutSections
    cases hname : l.stanzaName? with
    | none =>
      simp only [List.length_cons, Option.map_none]
      rw [← hls, Nat.add_comm (cutSections ls).1.length 1, Nat.add_assoc]
    | some name =>
      simp only [List.length_nil, Nat.add_zero, spansFrom, List.map_cons, List.length_cons,
        Option.map_some]
      rw [← hls, Nat.add_comm (cutSections ls).1.length 1, Nat.add_assoc]

theorem map_spans (d : Document) : d.spans.map (fun s => (s.scope, s.start)) =
    (.top, 0) :: d.headers.map fun h => (.stanza h.2, h.1) := by
  have h := map_spansFrom_cutSections 0 d.lines
  unfold spans sections spansFrom
  rw [List.map_cons, h]
  rfl

end Document

/-- A span ends where the next one starts, and the last one behind the last line. -/
theorem map_stop_spansFrom (n : Nat) (s : Section) (ss : List Section) :
    (spansFrom n (s :: ss)).map Span.stop = (spansFrom (n + s.lines.length) ss).map (·.start) ++
      [n + ((s :: ss).flatMap Section.lines).length] := by
  induction ss generalizing n s with
  | nil => simp [spansFrom, Span.stop]
  | cons t ss ih =>
    have hss := ih (n + s.lines.length) t
    have hlen : n + ((s :: t :: ss).flatMap Section.lines).length =
        n + s.lines.length + ((t :: ss).flatMap Section.lines).length := by
      rw [List.flatMap_cons, List.length_append, Nat.add_assoc]
    rw [spansFrom, List.map_cons, hss, hlen]
    rfl

theorem exists_covers_spansFrom_iff (n m : Nat) (ss : List Section) :
    (∃ s ∈ spansFrom n ss, s.Covers m) ↔ n ≤ m ∧ m < n + (ss.flatMap Section.lines).length := by
  induction ss generalizing n with
  | nil =>
    refine iff_of_false (fun ⟨s, hs, _⟩ => nomatch hs) ?_
    simp only [List.flatMap_nil, List.length_nil]
    omega
  | cons t ss ih =>
    have hss := ih (n + t.lines.length)
    unfold spansFrom
    simp only [List.mem_cons, exists_eq_or_imp, hss, List.flatMap_cons, List.length_append]
    unfold Span.Covers Span.stop
    simp only
    omega

namespace Document

theorem map_stop_spans (d : Document) :
    d.spans.map Span.stop = d.headers.map Prod.fst ++ [d.lines.length] := by
  have hstops := map_stop_spansFrom 0 ⟨.top, (cutSections d.lines).1⟩ (cutSections d.lines).2
  have hstarts := congrArg (List.map Prod.snd) (map_spansFrom_cutSections 0 d.lines)
  rw [List.map_map, List.map_map] at hstarts
  have hlines := d.flatMap_lines_sections
  unfold sections at hlines
  rw [hlines, Nat.zero_add d.lines.length] at hstops
  unfold spans sections
  rw [hstops]
  exact congrArg (· ++ _) hstarts

theorem mem_spans (d : Document) (s : Span) (hs : s ∈ d.spans) : ∃ pre post,
    d.sections = pre ++ s.toSection :: post ∧ s.start = (pre.flatMap Section.lines).length := by
  obtain ⟨pre, post, hd, hstart⟩ := mem_spansFrom 0 d.sections s hs
  exact ⟨pre, post, hd, by omega⟩

theorem exists_covers_iff (d : Document) (n : Nat) :
    (∃ s ∈ d.spans, s.Covers n) ↔ n < d.lines.length := by
  unfold spans
  rw [exists_covers_spansFrom_iff, d.flatMap_lines_sections]
  omega

theorem proper_of_mem_spans (d : Document) (s : Span) (hs : s ∈ d.spans) : s.Proper := by
  obtain ⟨pre, post, hd, -⟩ := d.mem_spans s hs
  exact proper_of_sections d s pre post hd

theorem pairwise_spans (d : Document) : d.spans.Pairwise fun s t => s.stop ≤ t.start :=
  pairwise_spansFrom 0 d.sections

/-! ## Attributes -/

theorem HasAttr.unique {d : Document} {n : Nat} {a b : Text} (ha : d.HasAttr n a)
    (hb : d.HasAttr n b) : a = b := by
  obtain ⟨l, hl, v, hk⟩ := ha
  obtain ⟨m, hm, w, hk'⟩ := hb
  rw [hl] at hm
  obtain rfl := Option.some.inj hm
  rw [hk] at hk'
  exact (Kind.attribute.inj hk').1

section
variable (d : Document) (s : Span) (hs : s ∈ d.spans)

include hs

theorem mem_places_of_mem_spans (p : Place) : p ∈ s.places ↔
    s.Covers p.line ∧ ∃ l ∈ d.lines[p.line]?, l.kind = .attribute p.name p.value := by
  obtain ⟨pre, post, hd, hstart⟩ := d.mem_spans s hs
  have hget := getElem?_of_span d s pre post hd hstart p.line
  constructor
  · intro hp
    have hlt := s.line_lt_stop p hp
    obtain ⟨hle, l, hl, hk⟩ := (s.mem_places_iff p).1 hp
    exact ⟨⟨hle, hlt⟩, l, by rwa [hget hle hlt], hk⟩
  · rintro ⟨⟨hle, hlt⟩, l, hl, hk⟩
    rw [hget hle hlt] at hl
    exact (s.mem_places_iff p).2 ⟨hle, l, hl, hk⟩

theorem mem_line_occurrences_iff (a : Text) (n : Nat) :
    n ∈ (s.occurrences a).map Place.line ↔ s.Covers n ∧ d.HasAttr n a := by
  rw [List.mem_map]
  constructor
  · rintro ⟨p, hp, rfl⟩
    obtain ⟨hplace, rfl⟩ := (s.mem_occurrences_iff a p).1 hp
    obtain ⟨hcovers, l, hl, hk⟩ := (d.mem_places_of_mem_spans s hs p).1 hplace
    exact ⟨hcovers, l, hl, p.value, hk⟩
  · rintro ⟨hcovers, l, hl, v, hk⟩
    refine ⟨⟨n, a, v⟩, (s.mem_occurrences_iff a _).2 ⟨?_, rfl⟩, rfl⟩
    exact (d.mem_places_of_mem_spans s hs _).2 ⟨hcovers, l, hl, hk⟩

theorem mem_line_places_iff (n : Nat) :
    n ∈ s.places.map Place.line ↔ s.Covers n ∧ ∃ a, d.HasAttr n a := by
  have hocc := fun a => d.mem_line_occurrences_iff s hs a n
  constructor
  · intro hn
    obtain ⟨p, hp, rfl⟩ := List.mem_map.1 hn
    have hp' := (s.mem_occurrences_iff p.name p).2 ⟨hp, rfl⟩
    obtain ⟨hcovers, ha⟩ := (hocc p.name).1 (List.mem_map_of_mem hp')
    exact ⟨hcovers, p.name, ha⟩
  · rintro ⟨hcovers, a, ha⟩
    obtain ⟨p, hp, rfl⟩ := List.mem_map.1 ((hocc a).2 ⟨hcovers, ha⟩)
    exact List.mem_map_of_mem ((s.mem_occurrences_iff a p).1 hp).1

end

/-- No other span has the line, and no other name stands in it. -/
theorem existsUnique_occurrences (d : Document) (n : Nat) (a : Text) (ha : d.HasAttr n a) :
    ∃! k : Span × Text, k.1 ∈ d.spans ∧ n ∈ (k.1.occurrences k.2).map Place.line := by
  have hlt : n < d.lines.length := by
    obtain ⟨l, hl, -⟩ := ha
    exact (List.getElem?_eq_some_iff.1 hl).1
  obtain ⟨s, hs, hcovers⟩ := (d.exists_covers_iff n).2 hlt
  refine ⟨(s, a), ⟨hs, (d.mem_line_occurrences_iff s hs a n).2 ⟨hcovers, ha⟩⟩, ?_⟩
  rintro ⟨t, b⟩ ⟨ht, hn⟩
  obtain ⟨hcovers', hb⟩ := (d.mem_line_occurrences_iff t ht b n).1 hn
  exact Prod.ext (eq_of_mem_spans d t s ht hs n hcovers' hcovers) (hb.unique ha)

end Document

namespace Span

variable (s : Span)

theorem pairwise_line_places : (s.places.map Place.line).Pairwise (· < ·) :=
  List.pairwise_map.2 s.pairwise_places

theorem pairwise_line_occurrences (a : Text) :
    ((s.occurrences a).map Place.line).Pairwise (· < ·) :=
  List.pairwise_map.2 (s.pairwise_occurrences a)

theorem lastAttribute?_eq_some_iff (n : Nat) : s.lastAttribute? = some n ↔
    n ∈ s.places.map Place.line ∧ ∀ m ∈ s.places.map Place.line, m ≤ n := by
  unfold lastAttribute?
  constructor
  · intro h
    obtain ⟨p, hp, rfl⟩ := Option.map_eq_some_iff.1 h
    refine ⟨List.mem_map_of_mem (List.mem_of_getLast? hp), ?_⟩
    intro m hm
    obtain ⟨q, hq, rfl⟩ := List.mem_map.1 hm
    exact line_le_of_getLast? _ p q s.pairwise_places hp hq
  · rintro ⟨hn, hmax⟩
    obtain ⟨p, hp, rfl⟩ := List.mem_map.1 hn
    obtain ⟨q, hq⟩ := Option.ne_none_iff_exists'.1
      (mt List.getLast?_eq_none_iff.1 (List.ne_nil_of_mem hp))
    have hle := line_le_of_getLast? _ q p s.pairwise_places hq hp
    have hge := hmax q.line (List.mem_map_of_mem (List.mem_of_getLast? hq))
    rw [hq, Option.map_some, Nat.le_antisymm hge hle]

theorem lastAttribute?_eq_none_iff : s.lastAttribute? = none ↔ s.places = [] := by
  unfold lastAttribute?
  rw [Option.map_eq_none_iff, List.getLast?_eq_none_iff]

/-- The lists of all names, joined in any order of the names and then sorted, are all places. -/
theorem mergeSort_line_occurrences (names : List Text) (hnames : names.Nodup)
    (hall : ∀ a, a ∈ names ↔ s.occurrences a ≠ []) :
    (names.flatMap fun a => (s.occurrences a).map Place.line).mergeSort =
      s.places.map Place.line := by
  have hdisjoint : ∀ a b, a ≠ b →
      ((s.occurrences a).map Place.line).Disjoint ((s.occurrences b).map Place.line) := by
    intro a b hab n ha hb
    obtain ⟨p, hp, rfl⟩ := List.mem_map.1 ha
    obtain ⟨q, hq, hline⟩ := List.mem_map.1 hb
    obtain ⟨hplace, rfl⟩ := (s.mem_occurrences_iff a p).1 hp
    obtain ⟨hplace', rfl⟩ := (s.mem_occurrences_iff b q).1 hq
    exact hab (congrArg Place.name (s.eq_of_line_eq q p hplace' hplace hline)).symm
  have hnodup : (names.flatMap fun a => (s.occurrences a).map Place.line).Nodup := by
    rw [List.nodup_flatMap]
    refine ⟨fun a _ => (s.pairwise_line_occurrences a).imp Nat.ne_of_lt, ?_⟩
    exact hnames.imp fun {a b} hab => hdisjoint a b hab
  have hmem : ∀ n, n ∈ (names.flatMap fun a => (s.occurrences a).map Place.line) ↔
      n ∈ s.places.map Place.line := by
    intro n
    rw [List.mem_flatMap, List.mem_map]
    constructor
    · rintro ⟨a, -, hn⟩
      obtain ⟨p, hp, rfl⟩ := List.mem_map.1 hn
      exact ⟨p, ((s.mem_occurrences_iff a p).1 hp).1, rfl⟩
    · rintro ⟨p, hp, rfl⟩
      have hp' := (s.mem_occurrences_iff p.name p).2 ⟨hp, rfl⟩
      exact ⟨p.name, (hall _).2 (List.ne_nil_of_mem hp'), List.mem_map_of_mem hp'⟩
  have hperm := (List.perm_ext_iff_of_nodup hnodup
    (s.pairwise_line_places.imp Nat.ne_of_lt)).2 hmem
  refine List.Perm.eq_of_pairwise' (r := (· ≤ ·)) ?_ ?_ ((List.mergeSort_perm _ _).trans hperm)
  · exact List.pairwise_mergeSort' (r := (· ≤ ·)) _
  · exact s.pairwise_line_places.imp Nat.le_of_lt

end Span

/-! ## What a scope resolves to -/

namespace Document

variable (d : Document)

/-- A scope resolves to the first of its spans. -/
theorem span?_first (x : Scope) (s : Span) (hs : d.span? x = some s) : s ∈ d.spans ∧ s.scope = x ∧
    ∀ t ∈ d.spans, t.scope = x → t = s ∨ s.stop ≤ t.start := by
  obtain ⟨hscope, pre, post, hd, hpre⟩ := List.find?_eq_some_iff_append.1 hs
  refine ⟨List.mem_of_find?_eq_some hs, of_decide_eq_true hscope, ?_⟩
  intro t ht htscope
  rw [hd] at ht
  rcases List.mem_append.1 ht with ht | ht
  · have hne := hpre t ht
    simp only [htscope, decide_true, Bool.not_true, Bool.false_eq_true] at hne
  · rcases List.mem_cons.1 ht with rfl | ht
    · exact Or.inl rfl
    · have hpair := d.pairwise_spans
      rw [hd] at hpair
      exact Or.inr (List.rel_of_pairwise_cons (List.pairwise_append.1 hpair).2.1 ht)

theorem map_start_spansOf (name : Text) : (d.spansOf (.stanza name)).map (·.start) =
    (d.headers.filter (·.2 = name)).map Prod.fst := by
  have h := congrArg (fun l => (l.filter (·.1 = .stanza name)).map Prod.snd) d.map_spans
  rw [List.filter_cons_of_neg (by simp), List.filter_map, List.filter_map, List.map_map,
    List.map_map] at h
  unfold spansOf
  simp only [Function.comp_def, Scope.stanza.injEq] at h
  exact h

theorem span?_stanza_eq_none_iff (name : Text) :
    d.span? (.stanza name) = none ↔ ∀ n, ¬ d.Opens n name := by
  have hstarts := d.map_start_spansOf name
  have hnone : d.span? (.stanza name) = none ↔ d.spansOf (.stanza name) = [] := by
    unfold span? spansOf
    rw [List.find?_eq_none, List.filter_eq_nil_iff]
  rw [hnone, ← List.map_eq_nil_iff, hstarts, List.map_eq_nil_iff, List.filter_eq_nil_iff]
  constructor
  · intro h n hopens
    exact h (n, name) ((d.mem_headers n name).2 hopens) (decide_eq_true rfl)
  · rintro h ⟨n, other⟩ hmem hother
    obtain rfl := of_decide_eq_true hother
    exact h n ((d.mem_headers n other).1 hmem)

end Document

/-! ## The whole index -/

/-- What is known of the attributes of a span. -/
structure Span.Indexed (d : Document) (s : Span) : Prop where
  /-- The lines of an attribute are those with its name, in order. -/
  mem_occurrences : ∀ a n, n ∈ (s.occurrences a).map Place.line ↔ s.Covers n ∧ d.HasAttr n a
  pairwise_occurrences : ∀ a, ((s.occurrences a).map Place.line).Pairwise (· < ·)
  /-- All attribute lines, in order. -/
  mem_places : ∀ n, n ∈ s.places.map Place.line ↔ s.Covers n ∧ ∃ a, d.HasAttr n a
  pairwise_places : (s.places.map Place.line).Pairwise (· < ·)
  /-- They may be collected name by name in any order, if they are sorted then. -/
  mergeSort_occurrences : ∀ names : List Text, names.Nodup →
    (∀ a, a ∈ names ↔ s.occurrences a ≠ []) →
    (names.flatMap fun a => (s.occurrences a).map Place.line).mergeSort = s.places.map Place.line
  /-- The last attribute line has the greatest number. -/
  last_eq_some_iff : ∀ n, s.lastAttribute? = some n ↔ (s.Covers n ∧ ∃ a, d.HasAttr n a) ∧
    ∀ m, s.Covers m → (∃ a, d.HasAttr m a) → m ≤ n
  last_eq_none_iff : s.lastAttribute? = none ↔ ∀ n, s.Covers n → ¬ ∃ a, d.HasAttr n a
  /-- A new line goes into the span or to its end, behind the header and all attributes. -/
  start_le_appendLine : s.start ≤ s.appendLine
  appendLine_le_stop : s.appendLine ≤ s.stop
  start_lt_appendLine : s.scope ≠ .top → s.start < s.appendLine
  lt_appendLine : ∀ n, s.Covers n → (∃ a, d.HasAttr n a) → n < s.appendLine

/-- What is known of the spans of a document. -/
structure Document.Indexed (d : Document) : Prop where
  mem_headers : ∀ n name, (n, name) ∈ d.headers ↔ d.Opens n name
  pairwise_headers : d.headers.Pairwise fun h k => h.1 < k.1
  /-- The top level from line 0 on, then a span for each header, which it starts with. -/
  map_spans : d.spans.map (fun s => (s.scope, s.start)) =
    (.top, 0) :: d.headers.map fun h => (.stanza h.2, h.1)
  /-- A span ends with the next header, the last one with the document. -/
  map_stop : d.spans.map Span.stop = d.headers.map Prod.fst ++ [d.lines.length]
  /-- Each line is in a span, and in no other. -/
  exists_covers_iff : ∀ n, (∃ s ∈ d.spans, s.Covers n) ↔ n < d.lines.length
  pairwise_spans : d.spans.Pairwise fun s t => s.stop ≤ t.start
  /-- Each attribute line is in one list, that of its span and its name. -/
  existsUnique_occurrences : ∀ n a, d.HasAttr n a →
    ∃! k : Span × Text, k.1 ∈ d.spans ∧ n ∈ (k.1.occurrences k.2).map Place.line
  indexed_of_mem : ∀ s ∈ d.spans, s.Indexed d
  /-- The top level always resolves, a stanza's name if a header has it. -/
  span?_top : d.span? .top = d.spans.head?
  span?_stanza_eq_none_iff : ∀ name, d.span? (.stanza name) = none ↔ ∀ n, ¬ d.Opens n name
  span?_first : ∀ x s, d.span? x = some s → s ∈ d.spans ∧ s.scope = x ∧
    ∀ t ∈ d.spans, t.scope = x → t = s ∨ s.stop ≤ t.start
  map_start_spansOf : ∀ name, (d.spansOf (.stanza name)).map (·.start) =
    (d.headers.filter (·.2 = name)).map Prod.fst

theorem Span.indexed_of_mem_spans (d : Document) (s : Span) (hs : s ∈ d.spans) : s.Indexed d := by
  have hproper := d.proper_of_mem_spans s hs
  have hplaces := d.mem_line_places_iff s hs
  constructor
  case mem_occurrences => exact d.mem_line_occurrences_iff s hs
  case pairwise_occurrences => exact s.pairwise_line_occurrences
  case mem_places => exact hplaces
  case pairwise_places => exact s.pairwise_line_places
  case mergeSort_occurrences => exact s.mergeSort_line_occurrences
  case last_eq_some_iff =>
    intro n
    simp only [s.lastAttribute?_eq_some_iff, hplaces, and_imp]
  case last_eq_none_iff =>
    rw [s.lastAttribute?_eq_none_iff, ← List.map_eq_nil_iff (f := Place.line),
      List.eq_nil_iff_forall_not_mem]
    simp only [hplaces, not_and]
  case start_le_appendLine => exact s.start_le_appendLine
  case appendLine_le_stop => exact s.appendLine_le_stop hproper
  case start_lt_appendLine => exact s.start_lt_appendLine hproper
  case lt_appendLine =>
    intro n hcovers ha
    obtain ⟨p, hp, rfl⟩ := List.mem_map.1 ((hplaces n).2 ⟨hcovers, ha⟩)
    exact s.line_lt_appendLine p hp

theorem Document.indexed (d : Document) : d.Indexed := by
  constructor
  case mem_headers => exact d.mem_headers
  case pairwise_headers => exact pairwise_headersFrom 0 d.lines
  case map_spans => exact d.map_spans
  case map_stop => exact d.map_stop_spans
  case exists_covers_iff => exact d.exists_covers_iff
  case pairwise_spans => exact d.pairwise_spans
  case existsUnique_occurrences => exact d.existsUnique_occurrences
  case indexed_of_mem => exact Span.indexed_of_mem_spans d
  case span?_top => rfl
  case span?_stanza_eq_none_iff => exact d.span?_stanza_eq_none_iff
  case span?_first => exact d.span?_first
  case map_start_spansOf => exact d.map_start_spansOf

end Stanzas
