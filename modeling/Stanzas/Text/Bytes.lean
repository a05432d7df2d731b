import Stanzas.Text.Blank

/-!
# The bytes of a text

A file holds a text as its UTF-8 bytes, and not all bytes are those of a text.

    ofUTF8? bytes = some t ↔ utf8 t = bytes                                  (ofUTF8?_eq_some_iff)
-/

namespace Stanzas

/-- The bytes of a text. -/
def utf8 (t : Text) : ByteArray := (String.ofList t).toUTF8

/-- The text with the given bytes, if they are one. -/
def ofUTF8? (bytes : ByteArray) : Option Text := (String.fromUTF8? bytes).map String.toList

/-- Every text is read back from its bytes. -/
theorem ofUTF8?_utf8 (t : Text) : ofUTF8? (utf8 t) = some t := by
  have h : String.fromUTF8? (utf8 t) = some (String.ofList t) := by
    unfold String.fromUTF8?
    split
    · rfl
    · next hn => exact absurd (String.ofList t).isValidUTF8 (by simpa [utf8] using hn)
  simp [ofUTF8?, h]

theorem ofUTF8?_eq_some_iff {bytes : ByteArray} {t : Text} :
    ofUTF8? bytes = some t ↔ utf8 t = bytes := by
  constructor
  · intro h
    obtain ⟨s, hs, rfl⟩ := Option.map_eq_some_iff.1 h
    unfold String.fromUTF8? at hs
    split at hs
    · cases hs
      simp only [utf8, String.ofList_toList]
      rfl
    · simp at hs
  · rintro rfl
    exact ofUTF8?_utf8 t

end Stanzas
