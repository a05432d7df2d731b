import Mathlib.Data.List.Basic
import Stanzas.Proofs.Patch.Numbers
import Stanzas.Proofs.Plan.WholeScope
import Stanzas.Proofs.Scope.Index

/-!
# Lines that stay keep their scope

Whatever an intent asks for, a line that its edit leaves is in the same stanza as before, or still
on the top level (`keepsSpans_plan`). Two things are enough for that: a header goes only with all
lines of its stanza, and a new one is written behind all lines (`keepsSpans`). In front of a line
that stays there are then no headers but those that were there before (`exists_opens_of_apply`).
-/

namespace Stanzas

/-! ## The span of a line -/

namespace Document

variable (d : Document)

theorem span?_top_of_mem_spans (s : Span) (hs : s ∈ d.spans) (hx : s.scope = .top) :
    d.span? .top = some s := by
  rw [d.span?_top]
  rcases List.mem_cons.1 hs with rfl | hs
  · rfl
  · obtain ⟨pre, post, hrest, -⟩ := mem_spansFrom _ _ s hs
    have hmem : s.toSection ∈ (cutSections d.lines).2 := by simp [hrest]
    exact absurd hx ((stanzas_cutSections d.lines).2 _ hmem).2

theorem inFirst_top_of_covers (s : Span) (hs : s ∈ d.spans) (hx : s.scope = .top) (n : Nat)
    (hn : s.Covers n) : d.InFirst .top n :=
  d.inFirst_of_span? .top s (d.span?_top_of_mem_spans s hs hx) n hn.1 hn.2

theorem inStanzaAt_of_covers (s : Span) (hs : s ∈ d.spans) (name : Text)
    (hx : s.scope = .stanza name) (n : Nat) (hn : s.Covers n) :
    d.Opens s.start name ∧ d.InStanzaAt s.start n := by
  obtain ⟨pre, post, hd, hstart⟩ := d.mem_spans s hs
  exact inStanzaAt_of_span d s pre post hd hstart name hx n hn.1 hn.2

/-- A stanza has its header. -/
theorem covers_start (s : Span) (hs : s ∈ d.spans) (hx : s.scope ≠ .top) : s.Covers s.start := by
  have hproper := d.proper_of_mem_spans s hs
  have hlt := s.start_lt_appendLine hproper hx
  have hle := s.appendLine_le_stop hproper
  exact ⟨Nat.le_refl _, by omega⟩

theorem Opens.unique {d : Document} {n : Nat} {a b : Text} (ha : d.Opens n a) (hb : d.Opens n b) :
    a = b := by
  obtain ⟨l, hl, ha⟩ := ha
  obtain ⟨m, hm, hb⟩ := hb
  rw [hl] at hm
  obtain rfl := Option.some.inj hm
  rw [ha] at hb
  exact Option.some.inj hb

/-- The span of a line starts with the header of its stanza. -/
theorem exists_covers_of_inStanzaAt (h n : Nat) (name : Text) (hopens : d.Opens h name)
    (hin : d.InStanzaAt h n) :
    ∃ s ∈ d.spans, s.scope = .stanza name ∧ s.start = h ∧ s.Covers n := by
  obtain ⟨s, hs, hn⟩ := (d.exists_covers_iff n).2 hin.2.1
  cases hx : s.scope with
  | top => exact absurd hopens ((d.inFirst_top_of_covers s hs hx n hn).2 h hin.1 name)
  | stanza other =>
    obtain ⟨hother, hin'⟩ := d.inStanzaAt_of_covers s hs other hx n hn
    rcases Nat.lt_trichotomy s.start h with hlt | heq | hgt
    · exact absurd hopens (hin'.2.2 h hlt hin.1 name)
    · exact ⟨s, hs, (heq ▸ hother).unique hopens ▸ hx, heq, hn⟩
    · exact absurd hother (hin.2.2 s.start hgt hn.1 other)

theorem exists_covers_of_inFirst_top (n : Nat) (h : d.InFirst .top n) :
    ∃ s ∈ d.spans, s.scope = .top ∧ s.Covers n := by
  obtain ⟨s, hs, hn⟩ := (d.exists_covers_iff n).2 h.1
  cases hx : s.scope with
  | top => exact ⟨s, hs, hx, hn⟩
  | stanza name =>
    have hopens := (d.inStanzaAt_of_covers s hs name hx n hn).1
    exact absurd hopens (h.2 s.start hn.1 name)

theorem not_opens_of_mem_places (s : Span) (hs : s ∈ d.spans) (q : Place) (hq : q ∈ s.places)
    (name : Text) : ¬ d.Opens q.line name := by
  rintro ⟨l, hl, hname⟩
  obtain ⟨-, m, hm, hk⟩ := (d.mem_places_of_mem_spans s hs q).1 hq
  rw [hl] at hm
  obtain rfl := Option.some.inj hm
  unfold Line.stanzaName? at hname
  rw [hk] at hname
  cases hname

end Document

/-! ## Patches -/

namespace Patch

/-- Whether a patch leaves each line in the scope that it was in. -/
structure KeepsSpans (p : Patch) (d : Document) : Prop where
  /-- A line that stays is the same line with another number, in the same order as before. -/
  getElem?_newLine : ∀ n l, d.lines[n]? = some l → ¬ p.Deletes n →
    (p.apply d).lines[p.newLine n]? = some l
  newLine_lt : ∀ m n, m < n → ¬ p.Deletes m → p.newLine m < p.newLine n
  /-- It is in a span of the same scope, which starts with the same header, and is an attribute
  of it if it was one. -/
  covers : ∀ s ∈ d.spans, ∀ n, s.Covers n → ¬ p.Deletes n → ∃ t ∈ (p.apply d).spans,
    t.scope = s.scope ∧ (s.scope ≠ .top → ¬ p.Deletes s.start ∧ t.start = p.newLine s.start) ∧
      t.Covers (p.newLine n) ∧ ∀ a v, ⟨n, a, v⟩ ∈ s.places → ⟨p.newLine n, a, v⟩ ∈ t.places

variable (p : Patch) (d : Document)

theorem getElem?_apply_newLine (n : Nat) (l : Line) (hl : d.lines[n]? = some l)
    (hdel : ¬ p.Deletes n) : (p.apply d).lines[p.newLine n]? = some l := by
  rw [p.lines_apply d]
  exact p.getElem?_splice_newLine d.lines n l hl hdel

theorem opens_apply (n : Nat) (name : Text) (h : d.Opens n name) (hdel : ¬ p.Deletes n) :
    (p.apply d).Opens (p.newLine n) name := by
  obtain ⟨l, hl, hname⟩ := h
  exact ⟨l, p.getElem?_apply_newLine d n l hl hdel, hname⟩

/-- A line that stays is the same attribute as before. -/
theorem mem_places_apply (s t : Span) (hs : s ∈ d.spans) (ht : t ∈ (p.apply d).spans) (q : Place)
    (hq : q ∈ s.places) (hdel : ¬ p.Deletes q.line) (hn : t.Covers (p.newLine q.line)) :
    ⟨p.newLine q.line, q.name, q.value⟩ ∈ t.places := by
  obtain ⟨-, l, hl, hk⟩ := (d.mem_places_of_mem_spans s hs q).1 hq
  exact ((p.apply d).mem_places_of_mem_spans t ht _).2
    ⟨hn, l, p.getElem?_apply_newLine d q.line l hl hdel, hk⟩

section
variable (n : Nat) (hn : n < d.lines.length) (hdel : ¬ p.Deletes n)
  (hins : ∀ k, k ≤ n → NoHeader (p.insertedAt k))

include hn hdel hins

/-- A header in front of a line that stays was in front of it before. -/
theorem exists_opens_of_apply (j : Nat) (name : Text) (hj : j ≤ p.newLine n)
    (hopens : (p.apply d).Opens j name) :
    ∃ m, m ≤ n ∧ j = p.newLine m ∧ d.Opens m name := by
  have hsucc := p.blockLine_succ n
  rw [if_neg hdel] at hsucc
  have hlt : j < p.newLine (n + 1) := by
    have := p.blockLine_le_newLine (n + 1)
    omega
  obtain ⟨l, hl, hname⟩ := hopens
  rw [p.lines_apply d] at hl
  rcases p.cases_of_lt_newLine j (n + 1) hlt with ⟨k, hk, r, hr, rfl⟩ | ⟨m, hm, hstays, rfl⟩
  · -- it is not one of the inserted lines
    have hkn : k ≤ n := by
      by_contra hgt
      obtain rfl : k = n + 1 := by omega
      omega
    rw [p.getElem?_splice_blockLine d.lines k (by omega) r hr] at hl
    have hnone := hins k hkn l (List.mem_of_getElem? hl)
    rw [hname] at hnone
    cases hnone
  · have hget : d.lines[m]? = some d.lines[m] := List.getElem?_eq_getElem (by omega)
    rw [p.getElem?_splice_newLine d.lines m _ hget hstays] at hl
    exact ⟨m, by omega, rfl, l, hget.trans hl, hname⟩

theorem inStanzaAt_apply (h : Nat) (hin : d.InStanzaAt h n) :
    (p.apply d).InStanzaAt (p.newLine h) (p.newLine n) := by
  have hget : d.lines[n]? = some d.lines[n] := List.getElem?_eq_getElem hn
  have hnew := p.getElem?_apply_newLine d n _ hget hdel
  refine ⟨p.newLine_le_newLine h n hin.1, (List.getElem?_eq_some_iff.1 hnew).1, ?_⟩
  intro j hlt hle name hopens
  obtain ⟨m, hm, rfl, hbefore⟩ := p.exists_opens_of_apply d n hn hdel hins j name hle hopens
  by_cases hmh : m ≤ h
  · have := p.newLine_le_newLine m h hmh
    omega
  · exact hin.2.2 m (by omega) hm name hbefore

theorem inFirst_top_apply (hin : d.InFirst .top n) : (p.apply d).InFirst .top (p.newLine n) := by
  have hget : d.lines[n]? = some d.lines[n] := List.getElem?_eq_getElem hn
  have hnew := p.getElem?_apply_newLine d n _ hget hdel
  refine ⟨(List.getElem?_eq_some_iff.1 hnew).1, ?_⟩
  intro j hle name hopens
  obtain ⟨m, hm, -, hbefore⟩ := p.exists_opens_of_apply d n hn hdel hins j name hle hopens
  exact hin.2 m hm name hbefore

end

theorem keepsSpans
    (hheader : ∀ h n name, d.Opens h name → d.InStanzaAt h n → ¬ p.Deletes n → ¬ p.Deletes h)
    (hins : ∀ k, k < d.lines.length → NoHeader (p.insertedAt k)) : p.KeepsSpans d := by
  constructor
  case getElem?_newLine => exact p.getElem?_apply_newLine d
  case newLine_lt => exact p.newLine_lt_newLine
  case covers =>
    intro s hs n hcovers hdel
    have hn : n < d.lines.length := (d.exists_covers_iff n).1 ⟨s, hs, hcovers⟩
    have hfront : ∀ k, k ≤ n → NoHeader (p.insertedAt k) := fun k hk => hins k (by omega)
    cases hx : s.scope with
    | top =>
      have hin := d.inFirst_top_of_covers s hs hx n hcovers
      obtain ⟨t, ht, htx, htn⟩ := (p.apply d).exists_covers_of_inFirst_top _
        (p.inFirst_top_apply d n hn hdel hfront hin)
      refine ⟨t, ht, htx, fun hne => absurd rfl hne, htn, ?_⟩
      intro a v hq
      exact p.mem_places_apply d s t hs ht _ hq hdel htn
    | stanza name =>
      obtain ⟨hopens, hin⟩ := d.inStanzaAt_of_covers s hs name hx n hcovers
      have hstart := hheader s.start n name hopens hin hdel
      obtain ⟨t, ht, htx, htstart, htn⟩ := (p.apply d).exists_covers_of_inStanzaAt _ _ name
        (p.opens_apply d s.start name hopens hstart)
        (p.inStanzaAt_apply d n hn hdel hfront s.start hin)
      refine ⟨t, ht, htx, fun _ => ⟨hstart, htstart⟩, htn, ?_⟩
      intro a v hq
      exact p.mem_places_apply d s t hs ht _ hq hdel htn

end Patch

/-! ## Plans -/

namespace Intent

variable (i : Intent) (d : Document)

/-- A header goes only with its whole stanza. -/
theorem removes_of_removes_header (h n : Nat) (name : Text) (hopens : d.Opens h name)
    (hin : d.InStanzaAt h n) (hgone : i.Removes d h) : i.Removes d n := by
  have hspan : ∀ x s, d.span? x = some s → s ∈ d.spans := fun x s hs => List.mem_of_find?_eq_some hs
  unfold Removes at hgone ⊢
  cases ha : i.attr with
  | some a =>
    simp only [ha] at hgone
    obtain ⟨s, hs, q, hq, rfl, -⟩ := hgone
    have hplace := ((s.mem_occurrences_iff a q).1 hq).1
    exact absurd hopens (d.not_opens_of_mem_places s (hspan _ s hs) q hplace name)
  | none =>
    cases hp : i.presence with
    | present => simp only [ha, hp] at hgone
    | absent =>
      cases hx : i.scope with
      | top =>
        simp only [ha, hp, hx] at hgone
        obtain ⟨s, hs, q, hq, rfl⟩ := hgone
        exact absurd hopens (d.not_opens_of_mem_places s (hspan _ s hs) q hq name)
      | stanza other =>
        simp only [ha, hp, hx] at hgone ⊢
        obtain ⟨s, hs, hle, hlt⟩ := hgone
        have hmem := (List.mem_filter.1 hs).1
        obtain ⟨t, ht, -, rfl, hle', hlt'⟩ := d.exists_covers_of_inStanzaAt h n name hopens hin
        -- both spans have the header
        obtain rfl := eq_of_mem_spans d s t hmem ht t.start ⟨hle, hlt⟩ ⟨Nat.le_refl _, by omega⟩
        exact ⟨s, hs, hle', hlt'⟩

/-- A new header is behind all lines. -/
theorem noHeader_insertedAt_plan (k : Nat) (hk : k < d.lines.length) :
    NoHeader ((i.plan d).1.insertedAt k) := by
  rw [i.insertedAt_plan d]
  cases hs : d.span? i.scope with
  | some s =>
    have hnew : i.newLines d = i.attrLines d := by
      unfold newLines
      rw [hs]
    rw [hnew]
    split
    · exact i.noHeader_attrLines d
    · exact fun l hl => absurd hl List.not_mem_nil
  | none =>
    rw [i.insertLine_of_span?_eq_none d hs, if_neg (Nat.ne_of_lt hk)]
    exact fun l hl => absurd hl List.not_mem_nil

theorem keepsSpans_plan : (i.plan d).1.KeepsSpans d := by
  apply Patch.keepsSpans
  · intro h n name hopens hin hstays hgone
    rw [i.deletes_plan d] at hstays hgone
    exact hstays (i.removes_of_removes_header d h n name hopens hin hgone)
  · exact i.noHeader_insertedAt_plan d

end Intent

end Stanzas
