import Mathlib.Data.List.Basic
import Stanzas.Proofs.Document

/-!
# Reading loses nothing

The lines of a document that was read are those of the text behind its byte-order mark, and any
lines that a text can have are read from it:

    Document.read t = ⟨ls.map .kept, ended⟩ ↔ AreLines ls ended ∧ joinLines ls ended = dropMark t
                                                                                      (read_eq_iff)

So what a reader finds can be told from the text alone: each line as it stands there, their number
from the newlines, and the flag from the last character (`render_read_and_read_joinLines`).
-/

namespace Stanzas

/-- Of several marks in front only the first one is dropped. -/
theorem dropMark_cases (t : Text) :
    t.head? ≠ some byteOrderMark ∧ dropMark t = t ∨ t = byteOrderMark :: dropMark t := by
  cases t with
  | nil => exact Or.inl ⟨by simp, rfl⟩
  | cons c t =>
    by_cases hc : c = byteOrderMark
    · exact Or.inr (by rw [dropMark, if_pos hc, hc])
    · exact Or.inl ⟨fun h => hc (Option.some.inj h), if_neg hc⟩

namespace Document

theorem read_eq_iff (t : Text) (ls : List Text) (ended : Bool) :
    read t = ⟨ls.map .kept, ended⟩ ↔ AreLines ls ended ∧ joinLines ls ended = dropMark t := by
  rw [← cutLines_eq_iff]
  unfold read
  constructor
  · intro h
    obtain ⟨hlines, hended⟩ := Document.mk.inj h
    have hinj : Function.Injective Line.kept := fun _ _ => Line.kept.inj
    exact Prod.ext (hinj.list_map hlines) hended
  · intro h
    rw [h]

section
variable (t : Text)

/-- Each line has a text of its own, which decides what it is. -/
theorem exists_raw_of_mem_read (l : Line) (hl : l ∈ (read t).lines) :
    ∃ raw ∈ l.raw?, '\n' ∉ raw ∧ l.kind = Kind.ofText raw := by
  obtain ⟨raw, hraw, rfl⟩ := List.mem_map.1 hl
  exact ⟨raw, rfl, (areLines_cutLines _).newline_notMem raw hraw, rfl⟩

theorem length_lines_read : (read t).lines.length =
    (dropMark t).count '\n' + if (dropMark t).getLast?.any (· ≠ '\n') then 1 else 0 := by
  have h := (areLines_cutLines (dropMark t)).length_eq
  rw [joinLines_cutLines] at h
  unfold read
  rw [List.length_map, h]

theorem ended_read_eq_true_iff :
    (read t).ended = true ↔ dropMark t ≠ [] ∧ (dropMark t).getLast? = some '\n' := by
  have h := (areLines_cutLines (dropMark t)).getLast?_joinLines_eq_newline_iff
  rw [joinLines_cutLines] at h
  constructor
  · intro he
    have hlast := h.2 he
    refine ⟨?_, hlast⟩
    intro hnil
    rw [hnil] at hlast
    cases hlast
  · exact fun hlast => h.1 hlast.2

end

theorem read_joinLines (ls : List Text) (ended : Bool) (h : AreLines ls ended)
    (hm : ∀ l ∈ ls.head?, l.head? ≠ some byteOrderMark) :
    read (joinLines ls ended) = ⟨ls.map .kept, ended⟩ := by
  rw [read_eq_iff]
  refine ⟨h, (dropMark_of_head?_ne _ ?_).symm⟩
  rw [Ne, head?_joinLines_eq_some_iff _ _ _ (by decide)]
  rintro ⟨l, hl, hc⟩
  exact hm l hl hc

/-- A text is its lines and its last newline, up to one mark in front, and lines are their text. -/
theorem render_read_and_read_joinLines :
    (∀ (t : Text) (style : Style),
      (read t).render style = dropMark t ∧
      (t.head? ≠ some byteOrderMark ∧ dropMark t = t ∨ t = byteOrderMark :: dropMark t) ∧
      (∀ l ∈ (read t).lines, ∃ raw ∈ l.raw?, '\n' ∉ raw ∧ l.kind = Kind.ofText raw) ∧
      (read t).lines.length = (dropMark t).count '\n' +
        (if (dropMark t).getLast?.any (· ≠ '\n') then 1 else 0) ∧
      ((read t).ended = true ↔ dropMark t ≠ [] ∧ (dropMark t).getLast? = some '\n')) ∧
    ∀ (ls : List Text) (ended : Bool), AreLines ls ended →
      (∀ l ∈ ls.head?, l.head? ≠ some byteOrderMark) →
        (read (joinLines ls ended)).lines.map Line.raw? = ls.map some ∧
          (read (joinLines ls ended)).ended = ended := by
  constructor
  · intro t style
    exact ⟨render_read style t, dropMark_cases t, exists_raw_of_mem_read t, length_lines_read t,
      ended_read_eq_true_iff t⟩
  · intro ls ended h hm
    rw [read_joinLines ls ended h hm]
    refine ⟨?_, rfl⟩
    rw [List.map_map]
    rfl

/-- A lone carriage return is a line, and so is the empty text in front of a newline. -/
theorem read_joinLines_of_carriage_return :
    AreLines [['a', '\r'], ['\r'], []] true ∧
      (read (joinLines [['a', '\r'], ['\r'], []] true)).lines.map Line.raw? =
        [some ['a', '\r'], some ['\r'], some []] ∧
      (read (joinLines [['a', '\r'], ['\r'], []] true)).ended = true := by
  have h : AreLines [['a', '\r'], ['\r'], []] true :=
    ⟨by decide, fun _ => List.cons_ne_nil _ _, fun h => nomatch h⟩
  exact ⟨h, render_read_and_read_joinLines.2 _ true h (by simp [byteOrderMark])⟩

end Document

end Stanzas
