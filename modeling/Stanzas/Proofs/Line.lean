import Mathlib.Data.List.TakeWhile
import Stanzas.Document
import Stanzas.Intent.Draft
import Stanzas.Proofs.Text.Trim

/-!
# Lines that are read as what they are

A line that an edit has written is text in the file from then on. `Line.Fits` says what it may hold
so that the text has its kind again, whatever its names and values are and wherever it stands.

    l.Fits → Kind.ofText (l.render style inStanza) = l.kind                        (ofText_render)
    l.Fits → '\n' ∉ l.render style inStanza                             (newline_notMem_render)
-/

namespace Stanzas

/-! ## Words and colons -/

theorem trimEnd_append_colon (n : Text) : trimEnd (n ++ [':']) = n ++ [':'] := by
  rw [trimEnd_eq_self_iff, List.getLast?_concat]
  rintro c ⟨⟩
  decide

namespace Word

variable {n : Text} (hn : Word n)

include hn

theorem isBlank_head? : ∀ c ∈ n.head?, isBlank c = false :=
  fun c hc => (hn.2 c (List.mem_of_mem_head? hc)).1

theorem trim_eq : trim n = n := by
  rw [trim_eq_self_iff]
  exact ⟨hn.isBlank_head?, fun c hc => (hn.2 c (List.mem_of_getLast? hc)).1⟩

theorem trim_append_colon : trim (n ++ [':']) = n ++ [':'] := by
  rw [trim_eq_self_iff, List.head?_append_of_ne_nil _ hn.1, List.getLast?_concat]
  refine ⟨hn.isBlank_head?, ?_⟩
  rintro c ⟨⟩
  decide

theorem equals_notMem_append_colon : '=' ∉ n ++ [':'] := by
  intro hm
  rcases List.mem_append.1 hm with hm | hm
  · exact (hn.2 _ hm).2 rfl
  · revert hm
    decide

end Word

/-! ## Equals signs -/

section
variable (n q : Text)

theorem trimStart_append_equals : trimStart (n ++ '=' :: q) = trimStart n ++ '=' :: q := by
  unfold trimStart
  rw [List.dropWhile_append]
  split
  · next h =>
    rw [List.isEmpty_iff.1 h]
    rfl
  · rfl

theorem trimEnd_append_equals : trimEnd (n ++ '=' :: q) = n ++ '=' :: trimEnd q := by
  have hsign : trimEnd ('=' :: q) = '=' :: trimEnd q := trimEnd_cons '=' q (by decide)
  rw [trimEnd_append_of_ne_nil n _ (by rw [hsign]; exact List.cons_ne_nil _ _), hsign]

theorem trim_append_equals : trim (n ++ '=' :: q) = trimStart n ++ '=' :: trimEnd q := by
  unfold trim
  rw [trimStart_append_equals, trimEnd_append_equals]

end

/-! ## The kind of a text -/

/-- A carriage return at the end is one more blank there. -/
theorem trimEnd_dropReturn (t : Text) : trimEnd (dropReturn t) = trimEnd t := by
  unfold dropReturn
  split
  · next h =>
    obtain ⟨s, rfl⟩ := List.getLast?_eq_some_iff.1 h
    have hblank : ∀ c ∈ ['\r'], isBlank c = true := by
      intro c hc
      rw [List.mem_singleton.1 hc]
      decide
    rw [List.dropLast_concat, trimEnd_append s _ hblank]
  · rfl

theorem trim_dropReturn (t : Text) : trim (dropReturn t) = trim t := by
  rw [← trim_trimEnd, trimEnd_dropReturn, trim_trimEnd]

/-- A blank at the front would be one in the name, and so it need not be asked for. -/
theorem leadingName?_eq (t : Text) : leadingName? t = headerName? (trimEnd t) := by
  unfold leadingName?
  split
  · next h =>
    cases hname : headerName? (trimEnd t) with
    | none => rfl
    | some n =>
      obtain ⟨hend, hn⟩ := headerName?_eq_some_iff.1 hname
      obtain ⟨b, -, ht⟩ := exists_trimEnd t
      have hhead : t.head? = n.head? := by
        rw [ht, hend, List.append_assoc, List.head?_append_of_ne_nil _ hn.1]
      obtain ⟨c, hc, hblank⟩ := (Option.any_eq_true _ _).1 h
      rw [hn.isBlank_head? c (hhead ▸ hc)] at hblank
      cases hblank
  · rfl

namespace Kind

/-- The reader's three questions in their order. -/
theorem ofText_eq (raw : Text) : ofText raw =
    if trim raw = [] then .blank
    else if (trim raw).head? = some '#' then .comment
    else (headerName? (trimEnd raw)).elim (ofAttribute (trim raw)) .header := by
  unfold ofText
  simp only [trim_dropReturn, leadingName?_eq, trimEnd_dropReturn]
  cases trim raw with
  | nil => rfl
  | cons c t =>
    rw [if_neg (List.cons_ne_nil c t)]
    split
    · next h => cases h
    · next h =>
      obtain ⟨rfl, rfl⟩ := List.cons.inj h
      exact (if_pos rfl).symm
    · next hc h =>
      obtain ⟨rfl, rfl⟩ := List.cons.inj h
      have hne : (c :: t).head? ≠ some '#' := fun e => hc (Option.some.inj e)
      rw [if_neg hne]
      cases headerName? (trimEnd raw) <;> rfl

theorem ofAttribute_of_notMem (t : Text) (h : '=' ∉ t) : ofAttribute t = .attribute t none := by
  have hd : t.dropWhile (· ≠ '=') = [] := by
    rw [List.dropWhile_eq_nil_iff]
    intro c hc
    simpa using fun e : c = '=' => h (e ▸ hc)
  unfold ofAttribute
  rw [hd]

/-- The first equals sign divides name and value, whatever else follows it. -/
theorem ofAttribute_append (s q : Text) (h : '=' ∉ s) :
    ofAttribute (s ++ '=' :: q) = .attribute (trim s) (some (trim q)) := by
  have hs : ∀ c ∈ s, decide (c ≠ '=') = true := by
    intro c hc
    simpa using fun e : c = '=' => h (e ▸ hc)
  have hd : (s ++ '=' :: q).dropWhile (· ≠ '=') = '=' :: q := by
    rw [List.dropWhile_append_of_pos hs]
    exact List.dropWhile_cons_of_neg (by simp)
  have ht : (s ++ '=' :: q).takeWhile (· ≠ '=') = s := by
    rw [List.takeWhile_append_of_pos hs, List.takeWhile_cons_of_neg (by simp), List.append_nil]
  unfold ofAttribute
  rw [hd, ht]

theorem ofText_header (n : Text) (hn : Word n) (hc : n.head? ≠ some '#') :
    ofText (n ++ [':']) = .header n := by
  have hname : headerName? (n ++ [':']) = some n := headerName?_eq_some_iff.2 ⟨rfl, hn⟩
  have hne : n ++ [':'] ≠ [] := List.append_ne_nil_of_left_ne_nil hn.1 _
  rw [ofText_eq, hn.trim_append_colon, trimEnd_append_colon, if_neg hne,
    List.head?_append_of_ne_nil _ hn.1, if_neg hc, hname]
  rfl

end Kind

theorem headerName?_eq_none_of_mem (t : Text) (c : Char) (hc : c ∈ t)
    (h : isBlank c = true ∨ c = '=') : headerName? t = none := by
  rw [Option.eq_none_iff_forall_ne_some]
  intro n hn
  obtain ⟨rfl, hw⟩ := headerName?_eq_some_iff.1 hn
  rcases List.mem_append.1 hc with hm | hm
  · have := hw.2 c hm
    rcases h with h | h
    · rw [this.1] at h
      cases h
    · exact this.2 h
  · rw [List.mem_singleton.1 hm] at h
    revert h
    decide

/-- Where the first equals sign has no `#` at the front of its line, it assigns a value to what is
in front of it, be that nothing at all. -/
theorem Kind.ofText_append_equals (n q : Text) (hn : '=' ∉ n) : ofText (n ++ '=' :: q) =
    if (trim n).head? = some '#' then .comment else .attribute (trim n) (some (trim q)) := by
  have hhead : (trim (n ++ '=' :: q)).head? = some '#' ↔ (trim n).head? = some '#' := by
    rw [trim_append_equals, head?_trim]
    cases trimStart n <;> simp
  have hne : trim (n ++ '=' :: q) ≠ [] := by
    rw [trim_append_equals]
    exact List.append_ne_nil_of_right_ne_nil _ (List.cons_ne_nil _ _)
  have hheader : headerName? (trimEnd (n ++ '=' :: q)) = none := by
    rw [trimEnd_append_equals]
    exact headerName?_eq_none_of_mem _ '=' (by simp) (Or.inr rfl)
  have hname : '=' ∉ trimStart n := fun hm => hn ((List.dropWhile_sublist _).subset hm)
  rw [ofText_eq, if_neg hne, hheader, Option.elim_none, trim_append_equals,
    ofAttribute_append _ _ hname, trim_trimStart, trim_trimEnd, ← trim_append_equals]
  simp only [hhead]

/-! ## Attribute lines -/

/-- A name that can be read back from an attribute line: checked and trimmed. -/
structure ReadableName (n : Text) : Prop where
  attrName : AttrName n
  trim_eq : trim n = n

namespace ReadableName

variable {n : Text} (h : ReadableName n)

include h

theorem ne_nil : n ≠ [] := h.attrName.1

theorem head?_ne : n.head? ≠ some '#' := h.attrName.2.1

theorem equals_notMem : '=' ∉ n := fun hm => (h.attrName.2.2.2 '=' hm).1 rfl

/-- A bare name is an attribute at any indent: without one, its end tells it from a header. -/
theorem ofText_bare (a : Text) (ha : ∀ c ∈ a, isBlank c = true) :
    Kind.ofText (a ++ n) = .attribute n none := by
  have hne : trimEnd n = n := by
    rw [trimEnd_eq_self_iff]
    exact ((trim_eq_self_iff n).1 h.trim_eq).2
  have htrim : trim (a ++ n) = n := (trim_blanks_append a n ha).trans h.trim_eq
  have hend : trimEnd (a ++ n) = a ++ n := by
    rw [trimEnd_append_of_ne_nil a n (by rw [hne]; exact h.ne_nil), hne]
  have hheader : headerName? (trimEnd (a ++ n)) = none := by
    rw [hend]
    cases a with
    | nil =>
      rw [List.nil_append, Option.eq_none_iff_forall_ne_some]
      intro m hm
      obtain ⟨rfl, -⟩ := headerName?_eq_some_iff.1 hm
      exact h.attrName.2.2.1 List.getLast?_concat
    | cons c a =>
      exact headerName?_eq_none_of_mem _ c (by simp) (Or.inl (ha c List.mem_cons_self))
  rw [Kind.ofText_eq, htrim, if_neg h.ne_nil, if_neg h.head?_ne, hheader]
  exact Kind.ofAttribute_of_notMem n h.equals_notMem

/-- A name before an equals sign is an attribute at any indent, with whatever follows as value. -/
theorem ofText_assigned (a p q : Text) (ha : ∀ c ∈ a, isBlank c = true)
    (hp : ∀ c ∈ p, isBlank c = true) :
    Kind.ofText (a ++ n ++ (p ++ '=' :: q)) = .attribute n (some (trim q)) := by
  have hequals : '=' ∉ a ++ n ++ p := by
    have hblank : isBlank '=' = false := by decide
    have hindent : '=' ∉ a := fun hm => by simp [ha _ hm] at hblank
    have hgap : '=' ∉ p := fun hm => by simp [hp _ hm] at hblank
    simp [hindent, h.equals_notMem, hgap]
  have hname : trim (a ++ n ++ p) = n := (trim_append a n p ha hp).trans h.trim_eq
  rw [← List.append_assoc, Kind.ofText_append_equals _ _ hequals, hname, if_neg h.head?_ne]

end ReadableName

/-! ## Lines that fit -/

/-- A line whose text, wherever it stands in a file, is one line of the same kind. -/
def Line.Fits : Line → Prop
  | .kept raw => '\n' ∉ raw
  | .blank => True
  | .header name => Word name ∧ name.head? ≠ some '#'
  | .attribute name value => ReadableName name ∧ ∀ v ∈ value, OneLine v ∧ trim v = v

theorem isBlank_space : isBlank ' ' = true := by decide

theorem isBlank_indent (inStanza : Bool) :
    ∀ c ∈ (if inStanza then [' ', ' '] else [] : Text), isBlank c = true := by
  cases inStanza <;> simp [isBlank_space]

namespace Line

/-- What an edit writes is what is read. -/
theorem ofText_render (style : Style) (inStanza : Bool) (l : Line) (h : l.Fits) :
    Kind.ofText (l.render style inStanza) = l.kind := by
  have ha := isBlank_indent inStanza
  match l, h with
  | .kept raw, _ => rfl
  | .blank, _ => rfl
  | .header name, h => exact Kind.ofText_header name h.1 h.2
  | .attribute name none, h =>
    simp only [render, List.append_nil]
    exact h.1.ofText_bare _ ha
  | .attribute name (some v), h =>
    have hv : trim v = v := (h.2 v rfl).2
    cases style with
    | spaced =>
      have hq : trim (' ' :: v) = v :=
        (trim_blanks_append [' '] v (by simp [isBlank_space])).trans hv
      have := h.1.ofText_assigned _ [' '] (' ' :: v) ha (by simp [isBlank_space])
      rwa [hq] at this
    | compact =>
      have := h.1.ofText_assigned _ [] v ha (by simp)
      rwa [hv] at this

theorem newline_notMem_render (style : Style) (inStanza : Bool) (l : Line) (h : l.Fits) :
    '\n' ∉ l.render style inStanza := by
  match l, h with
  | .kept raw, h => exact h
  | .blank, _ => exact List.not_mem_nil
  | .header name, h =>
    intro hm
    rcases List.mem_append.1 hm with hm | hm
    · have := (h.1.2 _ hm).1
      revert this
      decide
    · revert hm
      decide
  | .attribute name value, h =>
    have hindent : '\n' ∉ (if inStanza then [' ', ' '] else [] : Text) := by
      cases inStanza <;> decide
    have hname : '\n' ∉ name := fun hm => (h.1.attrName.2.2.2 _ hm).2 (Or.inl rfl)
    cases value with
    | none => simp [render, hindent, hname]
    | some v =>
      have hv : '\n' ∉ v := fun hm => (h.2 v rfl).1 _ hm (Or.inl rfl)
      have hsign : '\n' ∉ style.sign := by cases style <;> decide
      simp [render, hindent, hname, hv, hsign]

end Line

end Stanzas
