import Mathlib.Data.List.Basic
import Stanzas.Proofs.Line

/-!
# The grammar of lines

Every text is a line of one kind, and `Grammar` says which one without following the reader: blank
and comment by what is left of the text without the blanks around it, a header by the whole text, an
attribute by a cut into name, equals sign and value that no other cut agrees with.

    Kind.ofText raw = k ↔ Grammar raw k                                           (ofText_eq_iff)

So blanks at the end of a line count for nothing (`ofText_append_blanks`), and blanks in front of it
only turn a header into a bare attribute (`ofText_blanks_append`).
-/

namespace Stanzas

/-- A name at the front of a line, a colon, and then blanks only. -/
def IsHeader (raw n : Text) : Prop :=
  (Word n ∧ n.head? ≠ some '#') ∧ ∃ b, (∀ c ∈ b, isBlank c = true) ∧ raw = n ++ ':' :: b

/-- The name and the value that a text without blanks around it gives to an attribute. -/
structure Assigns (t n : Text) (v : Option Text) : Prop where
  isSome_iff : v.isSome = true ↔ '=' ∈ t
  equals_notMem : '=' ∉ n
  trim_name : trim n = n
  trim_value : ∀ x ∈ v, trim x = x
  eq_of_none : v = none → t = n
  eq_of_some : ∀ x ∈ v, ∃ a b, (∀ c ∈ a, isBlank c = true) ∧ (∀ c ∈ b, isBlank c = true) ∧
    t = n ++ a ++ '=' :: (b ++ x)

/-- What the text of a line of some kind looks like. An attribute is what is nothing else. -/
def Grammar (raw : Text) : Kind → Prop
  | .blank => trim raw = []
  | .comment => (trim raw).head? = some '#'
  | .header n => IsHeader raw n
  | .attribute n v => trim raw ≠ [] ∧ (trim raw).head? ≠ some '#' ∧ (∀ m, ¬ IsHeader raw m) ∧
    Assigns (trim raw) n v

/-- What becomes of a line with blanks put in front of it. -/
def Kind.indented : Kind → Kind
  | .header n => .attribute (n ++ [':']) none
  | k => k

/-! ## Headers -/

section
variable (raw : Text)

/-- The name in a header is what stands in front of the colon, blanks taken off the whole line. -/
theorem trim_of_headerName? (n : Text) (h : headerName? (trimEnd raw) = some n) :
    Word n ∧ trim raw = n ++ [':'] := by
  obtain ⟨hend, hn⟩ := headerName?_eq_some_iff.1 h
  refine ⟨hn, ?_⟩
  rw [← trim_trimEnd, hend, hn.trim_append_colon]

theorem headerName?_trimEnd_eq_some_iff (n : Text) : headerName? (trimEnd raw) = some n ↔
    Word n ∧ ∃ b, (∀ c ∈ b, isBlank c = true) ∧ raw = n ++ ':' :: b := by
  rw [headerName?_eq_some_iff, and_comm]
  refine and_congr_right fun _ => ?_
  constructor
  · intro hend
    obtain ⟨b, hb, hraw⟩ := exists_trimEnd raw
    refine ⟨b, hb, ?_⟩
    rw [hend, List.append_assoc] at hraw
    exact hraw
  · rintro ⟨b, hb, rfl⟩
    rw [List.append_cons, trimEnd_append _ b hb, trimEnd_append_colon]

theorem isHeader_iff (n : Text) :
    IsHeader raw n ↔ headerName? (trimEnd raw) = some n ∧ (trim raw).head? ≠ some '#' := by
  unfold IsHeader
  rw [and_right_comm, ← headerName?_trimEnd_eq_some_iff]
  refine and_congr_right fun h => ?_
  obtain ⟨hn, htrim⟩ := trim_of_headerName? raw n h
  rw [htrim, List.head?_append_of_ne_nil _ hn.1]

end

/-! ## Attributes -/

namespace Assigns

variable {t n : Text} {v : Option Text}

/-- A text without an equals sign is a bare name. -/
theorem of_notMem (ht : trim t = t) (h : '=' ∉ t) : Assigns t t none where
  isSome_iff := by simp [h]
  equals_notMem := h
  trim_name := ht
  trim_value := by simp
  eq_of_none _ := rfl
  eq_of_some := by simp

/-- Around the first equals sign of a trimmed text there is nothing but name, blanks and value. -/
theorem of_append (s q : Text) (ht : trim (s ++ '=' :: q) = s ++ '=' :: q) (h : '=' ∉ s) :
    Assigns (s ++ '=' :: q) (trim s) (some (trim q)) := by
  obtain ⟨hfirst, hlast⟩ := (trim_eq_self_iff _).1 ht
  have hs : ∀ c ∈ s.head?, isBlank c = false := by
    intro c hc
    refine hfirst c ?_
    rw [List.head?_append, Option.mem_def.1 hc, Option.some_or]
    rfl
  have hq : ∀ c ∈ q.getLast?, isBlank c = false := by
    intro c hc
    refine hlast c ?_
    rw [List.append_cons, List.getLast?_append, Option.mem_def.1 hc, Option.some_or]
    rfl
  obtain ⟨a, ha, hsa⟩ := exists_eq_trim_append s hs
  obtain ⟨b, hb, hqb⟩ := exists_eq_append_trim q hq
  have hmem : '=' ∈ s ++ '=' :: q := List.mem_append_right s List.mem_cons_self
  constructor
  case isSome_iff => exact iff_of_true rfl hmem
  case equals_notMem =>
    intro hm
    apply h
    rw [hsa]
    exact List.mem_append_left a hm
  case trim_name => exact trim_trim s
  case trim_value =>
    rintro x ⟨⟩
    exact trim_trim q
  case eq_of_none => exact fun hnone => nomatch hnone
  case eq_of_some =>
    rintro x ⟨⟩
    exact ⟨a, b, ha, hb, by rw [← hsa, ← hqb]⟩

/-- There is only one cut of a text into name, equals sign and value. -/
theorem ofAttribute_eq (h : Assigns t n v) : Kind.ofAttribute t = .attribute n v := by
  cases v with
  | none =>
    have ht : '=' ∉ t := mt h.isSome_iff.2 Bool.false_ne_true
    rw [Kind.ofAttribute_of_notMem t ht, h.eq_of_none rfl]
  | some x =>
    obtain ⟨a, b, ha, hb, ht⟩ := h.eq_of_some x rfl
    have hname : '=' ∉ n ++ a := by
      intro hm
      rcases List.mem_append.1 hm with hm | hm
      · exact h.equals_notMem hm
      · have := ha _ hm
        revert this
        decide
    have hn : trim (n ++ a) = n := (trim_append_blanks n a ha).trans h.trim_name
    have hx : trim (b ++ x) = x := (trim_blanks_append b x hb).trans (h.trim_value x rfl)
    rw [ht, Kind.ofAttribute_append _ _ hname, hn, hx]

end Assigns

theorem Kind.ofAttribute_eq_iff (t : Text) (ht : trim t = t) (k : Kind) :
    ofAttribute t = k ↔ ∃ n v, k = .attribute n v ∧ Assigns t n v := by
  constructor
  · rintro rfl
    by_cases h : '=' ∈ t
    · obtain ⟨s, q, rfl, hs⟩ := List.eq_append_cons_of_mem h
      exact ⟨_, _, ofAttribute_append s q hs, .of_append s q ht hs⟩
    · exact ⟨_, _, ofAttribute_of_notMem t h, .of_notMem ht h⟩
  · rintro ⟨n, v, rfl, h⟩
    exact h.ofAttribute_eq

/-! ## All kinds -/

section
variable (raw : Text)

namespace Kind

theorem grammar_ofText : Grammar raw (ofText raw) := by
  have hheader := isHeader_iff raw
  rw [ofText_eq]
  split
  · next hnil => exact hnil
  · next hnil =>
    split
    · next hc => exact hc
    · next hc =>
      cases hname : headerName? (trimEnd raw) with
      | some n => exact (hheader n).2 ⟨hname, hc⟩
      | none =>
        obtain ⟨n, v, hk, h⟩ := (ofAttribute_eq_iff _ (trim_trim raw) _).1 rfl
        rw [Option.elim_none, hk]
        refine ⟨hnil, hc, fun m hm => ?_, h⟩
        have := ((hheader m).1 hm).1
        rw [hname] at this
        cases this

theorem ofText_of_grammar (k : Kind) (h : Grammar raw k) : ofText raw = k := by
  rw [ofText_eq]
  match k, h with
  | .blank, h => exact if_pos h
  | .comment, h =>
    have hc : (trim raw).head? = some '#' := h
    have hne : trim raw ≠ [] := by
      intro hnil
      rw [hnil] at hc
      cases hc
    rw [if_neg hne, if_pos hc]
  | .header n, h =>
    obtain ⟨hname, hc⟩ := (isHeader_iff raw n).1 h
    have hne : trim raw ≠ [] := by
      rw [(trim_of_headerName? raw n hname).2]
      exact List.append_ne_nil_of_right_ne_nil n (List.cons_ne_nil _ _)
    rw [if_neg hne, if_neg hc, hname, Option.elim_some]
  | .attribute n v, ⟨hne, hc, hno, hassigns⟩ =>
    have hname : headerName? (trimEnd raw) = none := by
      rw [Option.eq_none_iff_forall_ne_some]
      exact fun m hm => hno m ((isHeader_iff raw m).2 ⟨hm, hc⟩)
    rw [if_neg hne, if_neg hc, hname, Option.elim_none, hassigns.ofAttribute_eq]

theorem ofText_eq_iff (k : Kind) : ofText raw = k ↔ Grammar raw k :=
  ⟨fun h => h ▸ grammar_ofText raw, ofText_of_grammar raw k⟩

/-! ## Blanks around a line -/

theorem ofText_append_blanks (b : Text) (hb : ∀ c ∈ b, isBlank c = true) :
    ofText (raw ++ b) = ofText raw := by
  rw [ofText_eq, ofText_eq, trim_append_blanks raw b hb, trimEnd_append raw b hb]

/-- A blank in front of a line keeps it from opening a stanza, and changes nothing else. -/
theorem ofText_blanks_append (a : Text) (ha : ∀ c ∈ a, isBlank c = true) (hne : a ≠ []) :
    ofText (a ++ raw) = (ofText raw).indented := by
  rw [ofText_eq, ofText_eq, trim_blanks_append a raw ha]
  split
  · rfl
  · next hnil =>
    split
    · rfl
    · have hend : trimEnd (a ++ raw) = a ++ trimEnd raw := by
        apply trimEnd_append_of_ne_nil
        intro he
        rw [← trim_trimEnd, he] at hnil
        exact hnil rfl
      obtain ⟨c, hc⟩ := List.exists_mem_of_ne_nil a hne
      have hno : headerName? (a ++ trimEnd raw) = none :=
        headerName?_eq_none_of_mem _ c (List.mem_append_left _ hc) (Or.inl (ha c hc))
      rw [hend, hno, Option.elim_none]
      cases hname : headerName? (trimEnd raw) with
      | none =>
        obtain ⟨n, v, hk, -⟩ := (ofAttribute_eq_iff _ (trim_trim raw) _).1 rfl
        rw [Option.elim_none, hk]
        rfl
      | some n =>
        obtain ⟨hn, ht⟩ := trim_of_headerName? raw n hname
        rw [ht, ofAttribute_of_notMem _ hn.equals_notMem_append_colon]
        rfl

/-- What a line is, and that of the blanks around it only those in front of a header matter. -/
theorem ofText_eq_iff_grammar :
    (∀ k, ofText raw = k ↔ Grammar raw k) ∧
    (∀ b, (∀ c ∈ b, isBlank c = true) → ofText (raw ++ b) = ofText raw) ∧
    ∀ a, (∀ c ∈ a, isBlank c = true) → a ≠ [] → ofText (a ++ raw) = (ofText raw).indented :=
  ⟨ofText_eq_iff raw, ofText_append_blanks raw, ofText_blanks_append raw⟩

end Kind

end

/-- A name may hold colons, and a header end with more than one carriage return. -/
theorem Kind.ofText_eq_iff_grammar_of_colons :
    Grammar [':', ':'] (.header [':']) ∧
      ofText ([':', ':'] ++ ['\r', '\r']) = .header [':'] ∧
      ofText ([' '] ++ [':', ':']) = .attribute [':', ':'] none := by
  obtain ⟨hkind, hback, hfront⟩ := ofText_eq_iff_grammar [':', ':']
  have hread : ofText [':', ':'] = .header [':'] := by decide
  refine ⟨(hkind _).1 hread, ?_, ?_⟩
  · rw [hback ['\r', '\r'] (by simp [isBlank, blankRanges]), hread]
  · rw [hfront [' '] (by simp [isBlank_space]) (List.cons_ne_nil _ _), hread]
    rfl

example : Kind.ofText ['=', ':'] = .attribute [] (some [':']) := by decide
example : Kind.ofText [':', ' ', 'x'] = .attribute [':', ' ', 'x'] none := by decide

end Stanzas
