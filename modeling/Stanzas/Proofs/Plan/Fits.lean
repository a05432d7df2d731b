import Mathlib.Data.List.Basic
import Stanzas.Proofs.Document
import Stanzas.Proofs.Intent
import Stanzas.Proofs.Plan.Values

/-!
# Edited documents are read as they are

A patch leaves the lines of a document readable if those that it inserts are, and no patch leaves an
empty last line without its newline (`Patch.fits_apply`). What a checked intent writes is readable
(`Intent.fits_edit`), so a reader finds in the text the scopes and values of the edited document,
also where no line is left (`values_read_render`).
-/

namespace Stanzas

/-! ## Patches -/

/-- The last line that is not ended was the last line before, and had no newline then. -/
theorem Patch.fits_apply (p : Patch) (d : Document) (hd : d.Fits)
    (hins : ∀ n, ∀ l ∈ p.insertedAt n, l.Fits) : (p.apply d).Fits := by
  constructor
  · intro l hl
    rw [p.lines_apply d] at hl
    rcases p.mem_splice 0 d.lines l hl with hl | ⟨n, hl⟩
    · exact hd.lines l hl
    · exact hins n l hl
  · intro he l hl
    by_cases hempty : p.IsEmpty
    · rw [p.apply_of_isEmpty d hempty] at he hl
      exact hd.last he l hl
    · rw [p.ended_apply d hempty, decide_eq_false_iff_not] at he
      have hended : d.ended = false := by simpa using fun e => he (Or.inl e)
      rw [p.getLast?_lines_apply d fun htouch => he (Or.inr (Or.inl htouch))] at hl
      exact hd.last hended l hl

/-! ## Checked intents -/

namespace Intent

variable (i : Intent) (hv : i.Valid)

include hv

theorem oneLine_of_mem_desired (v : Text) (hmem : some v ∈ i.desired) : OneLine v ∧ trim v = v := by
  unfold desired at hmem
  split at hmem
  · simp at hmem
  · obtain ⟨w, hw, hwv⟩ := List.mem_map.1 hmem
    obtain rfl := Option.some.inj hwv
    exact hv.values w hw

theorem fits_newLines (d : Document) : ∀ l ∈ i.newLines d, l.Fits := by
  have hattr : ∀ l ∈ i.attrLines d, l.Fits := by
    intro l hl
    unfold attrLines at hl
    cases ha : i.attr with
    | none =>
      rw [ha] at hl
      cases hl
    | some a =>
      rw [ha] at hl
      obtain ⟨v, hmem, rfl⟩ := List.mem_map.1 hl
      refine ⟨hv.attr a ha, ?_⟩
      rintro w rfl
      unfold missing at hmem
      split at hmem
      · exact i.oneLine_of_mem_desired hv w (List.mem_filter.1 hmem).1
      · cases hmem
  intro l hl
  unfold newLines at hl
  split at hl
  · exact hattr l hl
  · next name _ _ hname =>
    rcases List.mem_append.1 hl with hl | hl
    · unfold gap at hl
      split at hl
      · cases hl
      · rw [List.mem_singleton.1 hl]
        trivial
    · rcases List.mem_cons.1 hl with rfl | hl
      · exact hv.scope name hname
      · exact hattr l hl
  · cases hl

/-- Whatever a checked intent writes, and wherever, is read as it is. -/
theorem fits_edit (d : Document) (hd : d.Fits) : (i.edit d).Fits := by
  apply Patch.fits_apply _ d hd
  intro n l hl
  rw [i.insertedAt_plan d] at hl
  split at hl
  · exact i.fits_newLines hv d l hl
  · cases hl

end Intent

/-! ## Reading back -/

namespace Document

variable (style : Style) (d : Document)

/-- A document without lines is written as nothing or as one newline, and neither holds anything. -/
theorem scopes_values_of_lines_eq_nil (hnil : d.lines = []) :
    (read (d.render style)).scopes = d.scopes ∧
      ∀ x a, (read (d.render style)).values x a = d.values x a := by
  obtain ⟨lines, ended⟩ := d
  simp only at hnil
  subst hnil
  cases ended with
  | false => exact ⟨rfl, fun x a => rfl⟩
  | true =>
    have hread : read (render style ⟨[], true⟩) = ⟨[.kept []], true⟩ := rfl
    rw [hread]
    refine ⟨rfl, ?_⟩
    intro x a
    cases x with
    | top => rfl
    | stanza name => rfl

variable (hd : d.Fits) (hm : (d.render style).head? ≠ some byteOrderMark)

include hd hm

theorem scopes_read_render : (read (d.render style)).scopes = d.scopes := by
  by_cases hne : d.lines = []
  · exact (d.scopes_values_of_lines_eq_nil style hne).1
  · exact scopes_congr _ _ (map_kind_read_render style d hd hne hm)

theorem values_read_render (x : Scope) (a : Text) :
    (read (d.render style)).values x a = d.values x a := by
  by_cases hne : d.lines = []
  · exact (d.scopes_values_of_lines_eq_nil style hne).2 x a
  · exact values_congr _ _ (map_kind_read_render style d hd hne hm) x a

end Document

end Stanzas
