import Mathlib.Data.List.Basic
import Stanzas.Proofs.Plan.Reason
import Stanzas.Proofs.Plan.Section
import Stanzas.Proofs.Scope.Index

/-!
# Giving an attribute just some values

An exclusive intent leaves every line of its attribute that has a desired value, repeated ones too,
takes the others, and writes what is missing in one block: behind the last line that it leaves, or
where the first line was if it leaves none (`Intent.Reconciles`). If no value has to go and none is
missing, it does nothing (`exclusive_reconciles`).
-/

namespace Stanzas

/-! ## What is left of lines -/

/-- Lines without those of some places; the first line has the number `n`. -/
def linesWithout (places : List Place) (n : Nat) (ls : List Line) : List Line :=
  ((ls.zipIdx n).filter fun l => l.2 ∉ places.map Place.line).map Prod.fst

theorem Patch.remaining_eq_linesWithout (p : Patch) (places : List Place)
    (h : ∀ n, p.Deletes n ↔ n ∈ places.map Place.line) (n : Nat) (ls : List Line) :
    p.remaining n ls = linesWithout places n ls :=
  p.remaining_eq_filter_zipIdx (· ∈ places.map Place.line) h n ls

namespace Span

variable (s : Span) (a : Text) (vs : List (Option Text))

/-- The lines of an attribute that have one of some values. -/
def kept : List Place := (s.occurrences a).filter (·.value ∈ vs)

/-- The lines of an attribute that have another value. -/
def lost : List Place := (s.occurrences a).filter (·.value ∉ vs)

/-- The values that an attribute does not have. -/
def lacking : List (Option Text) := vs.filter (· ∉ (s.occurrences a).map Place.value)

theorem line_notMem_lost (p : Place) (hp : p ∈ s.kept a vs) :
    p.line ∉ (s.lost a vs).map Place.line := by
  rw [List.mem_map]
  rintro ⟨q, hq, hline⟩
  obtain ⟨hpocc, hpv⟩ := List.mem_filter.1 hp
  obtain ⟨hqocc, hqv⟩ := List.mem_filter.1 hq
  have hpplace := ((s.mem_occurrences_iff a p).1 hpocc).1
  have hqplace := ((s.mem_occurrences_iff a q).1 hqocc).1
  obtain rfl := s.eq_of_line_eq q p hqplace hpplace hline
  exact of_decide_eq_true hqv (of_decide_eq_true hpv)

theorem line_le_of_mem_lost (p q : Place) (hfirst : (s.occurrences a).head? = some p)
    (hq : q ∈ s.lost a vs) : p.line ≤ q.line :=
  line_le_of_head? _ p q (s.pairwise_occurrences a) hfirst (List.mem_filter.1 hq).1

end Span

namespace Intent

/-- How a document comes to give an attribute just the desired values. -/
structure Reconciles (i : Intent) (a : Text) (d : Document) (s : Span) (k : Nat) : Prop where
  /-- Lines with other values go, the missing values stand in one block, all else is as it was. -/
  lines_edit : (i.edit d).lines =
    linesWithout (s.lost a i.desired) 0 (d.lines.take k) ++
      (s.lacking a i.desired).map (Line.attribute a) ++
        linesWithout (s.lost a i.desired) k (d.lines.drop k)
  /-- The block is behind the last line that is kept. -/
  behind_kept : ∀ p, (s.kept a i.desired).getLast? = some p → k = p.line + 1 ∧
    ∃ l, d.lines[p.line]? = some l ∧
      (linesWithout (s.lost a i.desired) 0 (d.lines.take k)).getLast? = some l
  /-- If none is kept, the block is where the first line was. -/
  in_place : s.kept a i.desired = [] → (s.occurrences a).head?.map Place.line = some k ∧
    linesWithout (s.lost a i.desired) 0 (d.lines.take k) = d.lines.take k
  /-- The block is found again in the same scope. -/
  found_again : ∃ t, (i.edit d).span? i.scope = some t ∧
    ∀ r v, (s.lacking a i.desired)[r]? = some v →
      ⟨(linesWithout (s.lost a i.desired) 0 (d.lines.take k)).length + r, a, v⟩ ∈ t.occurrences a

section
variable (i : Intent) (a : Text) (s : Span) (hp : i.presence = .present)
  (he : i.exclusive = true)

include hp

theorem missing_eq_lacking : i.missing (s.values a) = s.lacking a i.desired := by
  unfold missing Span.lacking
  rw [hp, s.map_value_occurrences]

include he

theorem attrLineIn_of_kept (p : Place) (hlast : (s.kept a i.desired).getLast? = some p) :
    i.attrLineIn s a = p.line + 1 := by
  unfold Span.kept at hlast
  unfold attrLineIn
  cases hocc : s.occurrences a with
  | nil =>
    rw [hocc] at hlast
    cases hlast
  | cons first rest =>
    rw [hocc] at hlast
    simp only [hp, he, hlast, and_self, if_true]

theorem attrLineIn_of_kept_eq_nil (hkept : s.kept a i.desired = []) (hocc : s.occurrences a ≠ []) :
    (s.occurrences a).head?.map Place.line = some (i.attrLineIn s a) := by
  unfold Span.kept at hkept
  unfold attrLineIn
  cases hcons : s.occurrences a with
  | nil => exact absurd hcons hocc
  | cons first rest =>
    rw [hcons] at hkept
    simp only [hp, he, hkept, and_self, if_true]
    rfl

variable (d : Document) (ha : i.attr = some a) (hs : d.span? i.scope = some s)

include ha hs

theorem deletes_plan_iff_mem_lost (n : Nat) :
    (i.plan d).1.Deletes n ↔ n ∈ (s.lost a i.desired).map Place.line := by
  have hdrops : ∀ v, i.drops v = true ↔ v ∉ i.desired := by
    intro v
    unfold drops
    rw [hp, he, decide_eq_true_eq]
  rw [i.deletes_plan d, i.removes_iff_of_attr a s d ha hs, List.mem_map]
  unfold Span.lost
  simp only [hdrops, List.mem_filter, decide_eq_true_eq]
  constructor
  · rintro ⟨p, hp, hn, hv⟩
    exact ⟨p, ⟨hp, hv⟩, hn⟩
  · rintro ⟨p, ⟨hp, hv⟩, hn⟩
    exact ⟨p, hp, hn, hv⟩

theorem reconciles (hocc : s.occurrences a ≠ []) : i.Reconciles a d s (i.attrLineIn s a) := by
  have hlost := i.deletes_plan_iff_mem_lost a s hp he d ha hs
  have hleft := (i.plan d).1.remaining_eq_linesWithout (s.lost a i.desired) hlost
  have hmem : s ∈ d.spans := List.mem_of_find?_eq_some hs
  constructor
  case lines_edit =>
    rw [i.lines_edit d (i.insertLine_le_length d), i.insertLine_of_attr a s d ha hs,
      i.newLines_of_attr a s d ha hs, i.missing_eq_lacking a s hp, hleft, hleft]
  case behind_kept =>
    intro p hlast
    have hkept := List.mem_of_getLast? hlast
    have hplace := ((s.mem_occurrences_iff a p).1 (List.mem_filter.1 hkept).1).1
    obtain ⟨-, l, hl, -⟩ := (d.mem_places_of_mem_spans s hmem p).1 hplace
    have hlen : (d.lines.take p.line).length = p.line :=
      List.length_take_of_le (Nat.le_of_lt (List.getElem?_eq_some_iff.1 hl).1)
    have hstays := mt (hlost p.line).1 (s.line_notMem_lost a i.desired p hkept)
    have hk := i.attrLineIn_of_kept a s hp he p hlast
    refine ⟨hk, l, hl, ?_⟩
    rw [← hleft, hk, List.take_add_one, hl, Patch.remaining_append, Nat.zero_add, hlen]
    simp only [Option.toList_some, Patch.remaining, if_neg hstays, List.append_nil,
      List.getLast?_concat]
  case in_place =>
    intro hkept
    have hfirst := i.attrLineIn_of_kept_eq_nil a s hp he hkept hocc
    refine ⟨hfirst, ?_⟩
    rw [← hleft]
    apply Patch.remaining_eq_self
    intro n hn hdel
    rw [Nat.zero_add, hlost, List.mem_map] at hdel
    obtain ⟨q, hq, rfl⟩ := hdel
    obtain ⟨first, hhead, hline⟩ := Option.map_eq_some_iff.1 hfirst
    have hle := s.line_le_of_mem_lost a i.desired first q hhead hq
    have := List.length_take_le (i.attrLineIn s a) d.lines
    omega
  case found_again =>
    refine ⟨_, i.span?_edit_of_attr a ha d s hs, ?_⟩
    intro r v hv
    rw [← hleft]
    rw [← i.missing_eq_lacking a s hp] at hv
    exact i.mem_occurrences_edit_of_attr a ha d s hs r v hv

theorem exclusive_reconciles (hocc : s.occurrences a ≠ []) :
    ((∀ v, v ∈ (s.occurrences a).map Place.value ↔ v ∈ i.desired) →
      i.plan d = (∅, .unchanged)) ∧
    ((¬ ∀ v, v ∈ (s.occurrences a).map Place.value ↔ v ∈ i.desired) →
      (i.plan d).2 = .attrChanged) ∧
    ∃ k, i.Reconciles a d s k := by
  have hold : s.values a ≠ [] := by
    rw [← s.map_value_occurrences]
    exact mt List.map_eq_nil_iff.1 hocc
  rw [s.map_value_occurrences]
  refine ⟨?_, ?_, _, i.reconciles a s hp he d ha hs hocc⟩
  · intro hsame
    obtain ⟨v, hv⟩ := List.exists_mem_of_ne_nil _ hold
    have hplan : i.plan d = s.replaceValues a i.desired := by
      unfold plan
      rw [hs, ha, hp]
      exact if_pos he
    rw [hplan]
    exact s.replaceValues_of_subset a i.desired (List.ne_nil_of_mem ((hsame v).1 hv))
      (fun w hw => (hsame w).2 hw) fun w hw => (hsame w).1 hw
  · intro hdiffer
    rw [i.snd_plan_of_attr d a ha s hs]
    unfold reasonFor
    simp only [hp, he]
    rw [if_neg hold, if_neg]
    rintro ⟨hkeep, hget⟩
    exact hdiffer fun v => ⟨hkeep v, hget v⟩

end

/-- Of three lines the one in the middle goes, and the block is in front of the next header. -/
theorem exclusive_reconciles_of_repeated :
    let i : Intent := ⟨.stanza ['s'], some ['a'], [['3'], ['1']], .present, true, false⟩
    let d := Document.read ['s', ':', '\n', 'a', '=', '1', '\n', 'a', '=', '2', '\n', 'a', '\t', '=',
      '1', '\n', 't', ':']
    let s : Span := ⟨⟨.stanza ['s'], [.kept ['s', ':'], .kept ['a', '=', '1'], .kept ['a', '=', '2'],
      .kept ['a', '\t', '=', '1']]⟩, 0⟩
    d.span? i.scope = some s ∧ s.occurrences ['a'] ≠ [] ∧ (i.plan d).2 = .attrChanged ∧
      ∃ k, i.Reconciles ['a'] d s k := by
  intro i d s
  have hs : d.span? i.scope = some s := by decide
  have hocc : s.occurrences ['a'] ≠ [] := by decide
  obtain ⟨-, hdiffer, hreconciles⟩ := i.exclusive_reconciles ['a'] s rfl rfl d rfl hs hocc
  refine ⟨hs, hocc, hdiffer ?_, hreconciles⟩
  intro hsame
  have htwo : some ['2'] ∈ i.desired := (hsame (some ['2'])).1 (by decide)
  revert htwo
  decide

end Intent

end Stanzas
