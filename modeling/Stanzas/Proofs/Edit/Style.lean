import Mathlib.Data.List.Forall2
import Stanzas.Proofs.Document.Lossless
import Stanzas.Proofs.Edit
import Stanzas.Proofs.Intent.NormalForm

/-!
# The style is only cosmetic

Of the lines of an edited text only those that the edit has written depend on the style, and on them
no more than the blanks around the first equals sign (`Respelled`). Such lines are read alike,
whatever name and value are, and they stay so where a mark in front is dropped:

    Respelled l m → Kind.ofText l = Kind.ofText m                                    (ofText_eq)
    Respelled l m → Respelled (dropMark l) (dropMark m)                               (dropMark)

So a reader finds the same in both texts (`Restyled.map_kind_read`).
-/

namespace Stanzas

/-! ## Lines in two styles -/

/-- The text of a line in the two styles. -/
inductive Respelled : Text → Text → Prop where
  | same (t : Text) : Respelled t t
  | sign (n v : Text) (hn : '=' ∉ n) :
    Respelled (n ++ (Style.spaced.sign ++ v)) (n ++ (Style.compact.sign ++ v))

namespace Respelled

variable {l m : Text} (h : Respelled l m)

include h

theorem ofText_eq : Kind.ofText l = Kind.ofText m := by
  cases h with
  | same => rfl
  | sign n v hn =>
    have hblank : ∀ c ∈ [' '], isBlank c = true := by simp [isBlank_space]
    have hn' : '=' ∉ n ++ [' '] := by simp [hn]
    have hspaced : n ++ (Style.spaced.sign ++ v) = n ++ [' '] ++ '=' :: ([' '] ++ v) := by
      simp [Style.sign]
    have hcompact : n ++ (Style.compact.sign ++ v) = n ++ '=' :: v := rfl
    rw [hspaced, hcompact, Kind.ofText_append_equals _ _ hn', Kind.ofText_append_equals _ _ hn,
      trim_append_blanks n _ hblank, trim_blanks_append _ v hblank]

/-- A mark in front is one of the name. -/
theorem dropMark : Respelled (dropMark l) (dropMark m) := by
  cases h with
  | same => exact .same _
  | sign n v hn =>
    cases n with
    | nil => exact .sign [] v hn
    | cons c n =>
      simp only [List.cons_append, Stanzas.dropMark]
      split
      · exact .sign n v fun hm => hn (List.mem_cons_of_mem c hm)
      · exact .sign (c :: n) v hn

theorem eq_nil_iff : l = [] ↔ m = [] := by
  cases h with
  | same => exact Iff.rfl
  | sign n v hn => simp [Style.sign]

end Respelled

/-- An edit writes its name, the sign of the style and its value. -/
theorem Line.respelled_render (inStanza : Bool) (l : Line) (h : l.Fits) :
    Respelled (l.render .spaced inStanza) (l.render .compact inStanza) := by
  match l, h with
  | .kept raw, _ => exact .same _
  | .blank, _ => exact .same _
  | .header name, _ => exact .same _
  | .attribute name none, _ => exact .same _
  | .attribute name (some v), h =>
    refine .sign _ v fun hm => ?_
    rcases List.mem_append.1 hm with hm | hm
    · have := isBlank_indent inStanza _ hm
      revert this
      decide
    · exact h.1.equals_notMem hm

namespace Document

theorem respelled_renderLines (inStanza : Bool) (ls : List Line) (h : ∀ l ∈ ls, l.Fits) :
    List.Forall₂ Respelled (renderLines .spaced inStanza ls) (renderLines .compact inStanza ls) := by
  induction ls generalizing inStanza with
  | nil => exact .nil
  | cons l ls ih =>
    have hl := l.respelled_render (inStanza || l.stanzaName?.isSome) (h l List.mem_cons_self)
    exact .cons hl (ih _ fun k hk => h k (List.mem_cons_of_mem _ hk))

/-- Whether a line is indented does not depend on the style. -/
theorem getElem?_renderLines (inStanza : Bool) (ls : List Line) (n : Nat) (l : Line)
    (hn : ls[n]? = some l) :
    ∃ b, ∀ style, (renderLines style inStanza ls)[n]? = some (l.render style b) := by
  induction ls generalizing inStanza n with
  | nil => cases hn
  | cons k ls ih =>
    cases n with
    | zero =>
      obtain rfl := Option.some.inj hn
      exact ⟨_, fun _ => rfl⟩
    | succ n => exact ih _ n hn

end Document

/-! ## Marks -/

theorem mem_of_mem_dropMark (t : Text) (c : Char) (h : c ∈ dropMark t) : c ∈ t := by
  rcases dropMark_cases t with ⟨-, ht⟩ | ht
  · rwa [ht] at h
  · rw [ht]
    exact List.mem_cons_of_mem _ h

theorem dropMark_joinLines_cons (l : Text) (ls : List Text) (ended : Bool) :
    dropMark (joinLines (l :: ls) ended) = joinLines (dropMark l :: ls) ended := by
  cases l with
  | nil =>
    apply dropMark_of_head?_ne
    rw [Ne, head?_joinLines_eq_some_iff _ _ _ (by decide)]
    rintro ⟨l, ⟨⟩, ⟨⟩⟩
  | cons c l =>
    have hcons : joinLines ((c :: l) :: ls) ended = c :: joinLines (l :: ls) ended := by
      cases ls <;> rfl
    rw [hcons, dropMark, dropMark]
    split
    · rfl
    · rw [hcons]

/-- A mark is dropped from the first line, and with it the line if that was all of the text. -/
theorem cutLines_dropMark (t l : Text) (ls : List Text) (h : (cutLines t).1 = l :: ls) :
    cutLines (dropMark t) =
      if dropMark l = [] ∧ ls = [] ∧ (cutLines t).2 = false then ([], false)
      else (dropMark l :: ls, (cutLines t).2) := by
  have hlines := areLines_cutLines t
  have ht := joinLines_cutLines t
  rw [h] at hlines ht
  have hdrop : dropMark t = joinLines (dropMark l :: ls) (cutLines t).2 := by
    rw [← dropMark_joinLines_cons, ht]
  rw [hdrop]
  split
  · next hnil =>
    -- a text that was a mark alone has no line any more, and not an empty one
    obtain ⟨hl, rfl, hended⟩ := hnil
    rw [hl, hended]
    rfl
  · next hsome =>
    apply cutLines_joinLines
    constructor
    · intro m hm
      rcases List.mem_cons.1 hm with rfl | hm
      · exact fun hc => hlines.newline_notMem l List.mem_cons_self (mem_of_mem_dropMark l _ hc)
      · exact hlines.newline_notMem m (List.mem_cons_of_mem l hm)
    · exact fun _ => List.cons_ne_nil _ _
    · intro hended
      have hlast := hlines.getLast?_ne hended
      cases ls with
      | nil => exact fun hnil => hsome ⟨Option.some.inj hnil, rfl, hended⟩
      | cons m ms => exact hlast

/-! ## Texts in two styles -/

/-- The same text in the two styles, line by line. -/
structure Restyled (s t : Text) : Prop where
  lines : List.Forall₂ Respelled (cutLines s).1 (cutLines t).1
  ended_eq : (cutLines s).2 = (cutLines t).2

namespace Restyled

theorem refl (t : Text) : Restyled t t := ⟨List.forall₂_same.2 fun l _ => .same l, rfl⟩

variable {s t : Text} (h : Restyled s t)

include h

/-- Both texts lose the mark in front, or neither, and the first line with it alike. -/
theorem dropMark : Restyled (dropMark s) (dropMark t) := by
  have hlines := h.lines
  cases hs : (cutLines s).1 with
  | nil =>
    rw [hs, List.forall₂_nil_left_iff] at hlines
    rw [eq_nil_of_cutLines s hs, eq_nil_of_cutLines t hlines]
    exact refl []
  | cons l ls =>
    rw [hs, List.forall₂_cons_left_iff] at hlines
    obtain ⟨m, ms, hlm, hrest, ht⟩ := hlines
    have hfirst := hlm.dropMark
    have hnil : ls = [] ↔ ms = [] := by
      rw [← List.length_eq_zero_iff, ← List.length_eq_zero_iff, hrest.length_eq]
    have hs' := cutLines_dropMark s l ls hs
    have ht' := cutLines_dropMark t m ms ht
    simp only [hfirst.eq_nil_iff, hnil, h.ended_eq] at hs'
    by_cases hgone : Stanzas.dropMark m = [] ∧ ms = [] ∧ (cutLines t).2 = false
    · rw [if_pos hgone] at hs' ht'
      exact ⟨by rw [hs', ht']; exact .nil, by rw [hs', ht']⟩
    · rw [if_neg hgone] at hs' ht'
      exact ⟨by rw [hs', ht']; exact .cons hfirst hrest, by rw [hs', ht']⟩

theorem length_eq : (cutLines s).1.length = (cutLines t).1.length := h.lines.length_eq

/-- A reader finds the same in both. -/
theorem map_kind_read :
    (Document.read s).lines.map Line.kind = (Document.read t).lines.map Line.kind := by
  have hkinds : ∀ ls : List Text, (ls.map Line.kept).map Line.kind = ls.map Kind.ofText := by
    intro ls
    rw [List.map_map]
    rfl
  have hread := map_eq_of_forall₂ Respelled Kind.ofText (fun _ _ hlm => hlm.ofText_eq.symm) _ _
    h.dropMark.lines
  unfold Document.read
  rw [hkinds, hkinds, hread]

end Restyled

theorem Document.restyled_render (d : Document) (hd : d.Fits) :
    Restyled (d.render .spaced) (d.render .compact) := by
  by_cases hne : d.lines = []
  · have hrender : d.render .spaced = d.render .compact := by
      unfold render
      rw [hne]
      rfl
    rw [hrender]
    exact .refl _
  · constructor
    · rw [d.cutLines_render _ hd hne, d.cutLines_render _ hd hne]
      exact respelled_renderLines false d.lines hd.lines
    · rw [d.cutLines_render _ hd hne, d.cutLines_render _ hd hne]

/-! ## Edits in two styles -/

namespace Intent

/-- The style has no part in what an edit does, nor in what a reader finds afterwards. -/
theorem restyled_apply (i : Intent) (w : Draft) (hw : w.check = .ok i) (t : Text) :
    (i.apply .spaced t).reason = (i.apply .compact t).reason ∧
      (i.apply .spaced t).base = (i.apply .compact t).base ∧
      Restyled (i.apply .spaced t).text (i.apply .compact t).text ∧
      (cutLines (i.apply .spaced t).text).1.length =
        (cutLines (i.apply .compact t).text).1.length ∧
      (∀ (n : Nat) (l : Line), (i.edit (.read t)).lines[n]? = some l →
        ∃ b, ∀ style, (cutLines (i.apply style t).text).1[n]? = some (l.render style b)) ∧
      (∀ (n : Nat) (raw : Text), (i.edit (.read t)).lines[n]? = some (.kept raw) →
        ∀ style, (cutLines (i.apply style t).text).1[n]? = some raw) ∧
      (Document.read (i.apply .spaced t).text).lines.map Line.kind =
        (Document.read (i.apply .compact t).text).lines.map Line.kind := by
  have hfits := i.fits_edit (w.valid_of_check i hw) _ (Document.fits_read t)
  have htexts := Document.restyled_render _ hfits
  have hlines : ∀ (n : Nat) (l : Line), (i.edit (.read t)).lines[n]? = some l →
      ∃ b, ∀ style, (cutLines (i.apply style t).text).1[n]? = some (l.render style b) := by
    intro n l hn
    have hne : (i.edit (.read t)).lines ≠ [] := by
      intro hnil
      rw [hnil] at hn
      cases hn
    obtain ⟨b, hb⟩ := Document.getElem?_renderLines false _ n l hn
    refine ⟨b, fun style => ?_⟩
    rw [text_apply, Document.cutLines_render style _ hfits hne]
    exact hb style
  refine ⟨rfl, rfl, htexts, htexts.length_eq, hlines, ?_, htexts.map_kind_read⟩
  intro n raw hn
  obtain ⟨_, hraw⟩ := hlines n _ hn
  exact hraw

/-- An empty value and one that starts with an equals sign and ends with a colon, in a text of which
a second mark is left. -/
theorem restyled_apply_of_marks :
    let w : Draft :=
      { scope := .stanza ['s'], attr := some ['a'], values := [['=', ' ', 'x', ':'], []] }
    let i : Intent := ⟨.stanza ['s'], some ['a'], [['=', ' ', 'x', ':'], []], .present, true, false⟩
    let t : Text := [byteOrderMark, byteOrderMark, 's', ':']
    w.check = .ok i ∧ (i.apply .spaced t).text ≠ (i.apply .compact t).text ∧
      (cutLines (i.apply .spaced t).text).1[0]? = some [byteOrderMark, 's', ':'] ∧
      (Document.read (i.apply .spaced t).text).lines.map Line.kind =
        [.header ['s'], .blank, .header ['s'], .attribute ['a'] (some ['=', ' ', 'x', ':']),
          .attribute ['a'] (some [])] := by
  intro w i t
  have hw : w.check = .ok i := by decide
  obtain ⟨-, -, -, -, -, hkept, hkinds⟩ := i.restyled_apply w hw t
  refine ⟨hw, by decide, hkept 0 _ (by decide) .spaced, ?_⟩
  rw [hkinds]
  decide

end Intent

end Stanzas
