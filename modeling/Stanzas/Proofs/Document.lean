import Mathlib.Data.List.Basic
import Stanzas.Proofs.Line
import Stanzas.Proofs.Text.Lines

/-!
# Documents that are read as they are

A document is not its text: a fresh line has no text yet, and a last line that is empty and not
ended leaves no trace in the text at all. For documents without such traps (`Document.Fits`)
writing and reading keeps every line, up to the loss of a byte-order mark in front.

    d.Fits → d.lines ≠ [] → (d.render style).head? ≠ some byteOrderMark →
      Document.read (d.render style) = ⟨(renderLines style false d.lines).map .kept, d.ended⟩
                                                                                     (read_render)
-/

namespace Stanzas

theorem dropMark_of_head?_ne (t : Text) (h : t.head? ≠ some byteOrderMark) : dropMark t = t := by
  cases t with
  | nil => rfl
  | cons c t => exact if_neg fun e => h (congrArg some e)

namespace Document

/-! ## The texts of lines -/

section
variable (style : Style) (inStanza : Bool) (ls : List Line)

theorem renderLines_ne_nil (hne : ls ≠ []) : renderLines style inStanza ls ≠ [] := by
  obtain ⟨l, ls, rfl⟩ := List.exists_cons_of_ne_nil hne
  exact List.cons_ne_nil _ _

theorem head?_renderLines : (renderLines style inStanza ls).head? =
    ls.head?.map fun l => l.render style (inStanza || l.stanzaName?.isSome) := by
  cases ls <;> rfl

theorem exists_of_mem_renderLines (m : Text) (hm : m ∈ renderLines style inStanza ls) :
    ∃ l ∈ ls, ∃ b, m = l.render style b := by
  induction ls generalizing inStanza with
  | nil => cases hm
  | cons l ls ih =>
    rcases List.mem_cons.1 hm with rfl | hm
    · exact ⟨l, List.mem_cons_self, _, rfl⟩
    · obtain ⟨k, hk, hb⟩ := ih _ hm
      exact ⟨k, List.mem_cons_of_mem _ hk, hb⟩

theorem exists_of_getLast?_renderLines (m : Text)
    (hm : (renderLines style inStanza ls).getLast? = some m) :
    ∃ l ∈ ls.getLast?, ∃ b, m = l.render style b := by
  induction ls generalizing inStanza with
  | nil => cases hm
  | cons l ls ih =>
    cases ls with
    | nil => exact ⟨l, rfl, _, (Option.some.inj hm).symm⟩
    | cons k ks =>
      simp only [renderLines, List.getLast?_cons_cons] at hm ih ⊢
      exact ih _ hm

/-- Every line is read as what it is, in a stanza and before all stanzas. -/
theorem map_ofText_renderLines (h : ∀ l ∈ ls, l.Fits) :
    (renderLines style inStanza ls).map Kind.ofText = ls.map Line.kind := by
  induction ls generalizing inStanza with
  | nil => rfl
  | cons l ls ih =>
    have hl := Line.ofText_render style (inStanza || l.stanzaName?.isSome) l
      (h l List.mem_cons_self)
    have hls := ih (inStanza || l.stanzaName?.isSome) fun k hk => h k (List.mem_cons_of_mem _ hk)
    simp only [renderLines, List.map_cons, hl, hls]

end

/-! ## Reading back -/

/-- A document all of whose lines fit and whose last line, unless a newline ends it, is one of the
file and not empty. -/
structure Fits (d : Document) : Prop where
  lines : ∀ l ∈ d.lines, l.Fits
  last : d.ended = false → ∀ l ∈ d.lines.getLast?, ∃ raw, l = .kept raw ∧ raw ≠ []

theorem fits_read (t : Text) : (read t).Fits := by
  have h := areLines_cutLines (dropMark t)
  constructor
  · intro l hl
    obtain ⟨raw, hraw, rfl⟩ := List.mem_map.1 hl
    exact h.newline_notMem raw hraw
  · intro he l hl
    have hlast := h.getLast?_ne he
    simp only [read, List.getLast?_map, Option.mem_def, Option.map_eq_some_iff] at hl
    obtain ⟨raw, hraw, rfl⟩ := hl
    exact ⟨raw, rfl, fun e => hlast (e ▸ hraw)⟩

section
variable (style : Style) (d : Document) (h : d.Fits)

include h

theorem areLines_renderLines (hne : d.lines ≠ []) :
    AreLines (renderLines style false d.lines) d.ended := by
  constructor
  · intro m hm
    obtain ⟨l, hl, b, rfl⟩ := exists_of_mem_renderLines style false d.lines m hm
    exact Line.newline_notMem_render style b l (h.lines l hl)
  · exact fun _ => renderLines_ne_nil style false d.lines hne
  · intro he hlast
    obtain ⟨l, hl, b, hb⟩ := exists_of_getLast?_renderLines style false d.lines [] hlast
    obtain ⟨raw, rfl, hraw⟩ := h.last he l hl
    exact hraw hb.symm

theorem cutLines_render (hne : d.lines ≠ []) :
    cutLines (d.render style) = (renderLines style false d.lines, d.ended) :=
  cutLines_joinLines _ _ (areLines_renderLines style d h hne)

theorem read_render (hne : d.lines ≠ []) (hm : (d.render style).head? ≠ some byteOrderMark) :
    read (d.render style) = ⟨(renderLines style false d.lines).map .kept, d.ended⟩ := by
  unfold read
  rw [dropMark_of_head?_ne _ hm, cutLines_render style d h hne]

theorem map_kind_read_render (hne : d.lines ≠ [])
    (hm : (d.render style).head? ≠ some byteOrderMark) :
    (read (d.render style)).lines.map Line.kind = d.lines.map Line.kind := by
  have hk := map_ofText_renderLines style false d.lines h.lines
  rw [read_render style d h hne hm, List.map_map]
  exact hk

end

/-! ## The first character -/

/-- A text starts with a mark if its first line does: a fresh line, and it is then an attribute of
the top level, or one of the file. -/
theorem head?_render_eq_mark_iff (style : Style) (d : Document) :
    (d.render style).head? = some byteOrderMark ↔
      ∃ l ∈ d.lines.head?, (l.render style l.stanzaName?.isSome).head? = some byteOrderMark := by
  unfold render
  rw [head?_joinLines_eq_some_iff _ _ _ (by decide), head?_renderLines]
  simp only [Bool.false_or]
  constructor
  · rintro ⟨m, hm, hc⟩
    obtain ⟨l, hl, rfl⟩ := Option.map_eq_some_iff.1 hm
    exact ⟨l, hl, hc⟩
  · rintro ⟨l, hl, hc⟩
    exact ⟨_, Option.map_eq_some_iff.2 ⟨l, hl, rfl⟩, hc⟩

end Document

end Stanzas
