import Mathlib.Data.List.Basic
import Mathlib.Data.Nat.Digits.Defs
import Mathlib.Tactic.Ring
import Stanzas.Files.Mode

/-!
# Texts for permission bits

A text spells a number if it is made of octal digits with nothing before them but perhaps the sign
`0o` and then perhaps a plus sign (`Spells`). What is read are the numbers that are spelled and are
permission bits:

    read t = .ok m ↔ Spells t m ∧ m ≤ max                                        (read_eq_ok_iff)

The digits go through a word of 32 bits. The number in it never gets smaller, so one that has become
too large for the word stays too large, and does not come back as another one (`readDigits_digits`).
-/

namespace Stanzas

namespace Mode

/-! ## Octal digits -/

/-- The text of octal digits. -/
def digits (ds : List (Fin 8)) : Text := ds.map fun d => Nat.digitChar d.val

/-- The number that octal digits make up. The first one counts most. -/
def value (ds : List (Fin 8)) : Nat := Nat.ofDigits 8 (ds.map Fin.val).reverse

/-- The number that starts with the digits of `n` and goes on with others. -/
def valueFrom (n : Nat) (ds : List (Fin 8)) : Nat := n * 8 ^ ds.length + value ds

/-- Whether a text is that of a number: octal digits, perhaps with the sign `0o` and perhaps with a
plus sign before them, in this order. -/
def Spells (t : Text) (n : Nat) : Prop :=
  ∃ sign ∈ [[], ['0', 'o']], ∃ plus ∈ [[], ['+']], ∃ ds : List (Fin 8),
    ds ≠ [] ∧ t = sign ++ (plus ++ digits ds) ∧ n = value ds

theorem value_cons (d : Fin 8) (ds : List (Fin 8)) :
    value (d :: ds) = d * 8 ^ ds.length + value ds := by
  unfold value
  rw [List.map_cons, Nat.ofDigits_reverse_cons, List.length_map]
  ring

theorem valueFrom_zero (ds : List (Fin 8)) : valueFrom 0 ds = value ds := by
  unfold valueFrom
  rw [Nat.zero_mul, Nat.zero_add]

theorem valueFrom_nil (n : Nat) : valueFrom n [] = n := Nat.mul_one n

theorem valueFrom_cons (n : Nat) (d : Fin 8) (ds : List (Fin 8)) :
    valueFrom n (d :: ds) = valueFrom (n * 8 + d) ds := by
  unfold valueFrom
  rw [value_cons, List.length_cons, Nat.pow_succ]
  ring

theorem le_valueFrom (n : Nat) (ds : List (Fin 8)) : n ≤ valueFrom n ds :=
  (Nat.le_mul_of_pos_right n (Nat.pow_pos (by decide))).trans (Nat.le_add_right _ _)

theorem digit?_eq_some_iff (c : Char) (d : Nat) :
    digit? c = some d ↔ d < 8 ∧ c = Nat.digitChar d := by
  have hrange : '0' ≤ c ∧ c ≤ '7' ↔ 48 ≤ c.toNat ∧ c.toNat ≤ 55 := Iff.rfl
  unfold digit?
  constructor
  · intro h
    split at h
    · next hc =>
      obtain rfl : c.toNat - 48 = d := Option.some.inj h
      rw [hrange] at hc
      refine ⟨by omega, Char.toNat_inj.1 ?_⟩
      rw [Nat.toNat_digitChar_of_lt_ten (by omega)]
      omega
    · cases h
  · rintro ⟨hd, rfl⟩
    have hc : (Nat.digitChar d).toNat = 48 + d := Nat.toNat_digitChar_of_lt_ten (by omega)
    rw [if_pos (hrange.2 (by omega)), hc]
    exact congrArg some (Nat.add_sub_cancel_left 48 d)

theorem notMem_digits (ds : List (Fin 8)) (c : Char) (hc : digit? c = none) : c ∉ digits ds := by
  intro hmem
  obtain ⟨d, -, rfl⟩ := List.mem_map.1 hmem
  rw [(digit?_eq_some_iff _ d).2 ⟨d.isLt, rfl⟩] at hc
  cases hc

/-! ## Reading digits -/

/-- The digits are read if the number fits into the word. -/
theorem readDigits_digits (n : Nat) (ds : List (Fin 8)) (hn : n < UInt32.size) :
    readDigits n (digits ds) =
      if valueFrom n ds < UInt32.size then .ok (valueFrom n ds) else .error .tooLarge := by
  induction ds generalizing n with
  | nil =>
    rw [valueFrom_nil, if_pos hn]
    rfl
  | cons d ds ih =>
    have hd : digit? (Nat.digitChar d) = some d.val := (digit?_eq_some_iff _ _).2 ⟨d.isLt, rfl⟩
    show readDigits n (Nat.digitChar d :: digits ds) = _
    rw [readDigits, hd, valueFrom_cons]
    dsimp only
    by_cases hfits : n * 8 + d < UInt32.size
    · rw [if_pos hfits, ih _ hfits]
    · -- more digits do not make the number fit again
      have hle := le_valueFrom (n * 8 + d) ds
      rw [if_neg hfits, if_neg (by omega)]

/-- Nothing but digits is read. -/
theorem exists_digits_of_readDigits (n : Nat) (t : Text) (m : Nat) (h : readDigits n t = .ok m) :
    ∃ ds, t = digits ds := by
  induction t generalizing n with
  | nil => exact ⟨[], rfl⟩
  | cons c t ih =>
    rw [readDigits] at h
    split at h
    · cases h
    · next d hd =>
      obtain ⟨hlt, rfl⟩ := (digit?_eq_some_iff c d).1 hd
      split at h
      · obtain ⟨ds, rfl⟩ := ih _ h
        exact ⟨⟨d, hlt⟩ :: ds, rfl⟩
      · cases h

/-! ## The signs before them -/

theorem readOctal_of_plus (t : Text) (ht : t ≠ []) : readOctal ('+' :: t) = readDigits 0 t := by
  cases t with
  | nil => exact absurd rfl ht
  | cons c t => rfl

theorem readOctal_of_head?_ne (t : Text) (ht : t ≠ []) (hplus : t.head? ≠ some '+') :
    readOctal t = readDigits 0 t := by
  unfold readOctal
  split
  · exact absurd rfl ht
  · exact absurd rfl hplus
  · exact absurd rfl hplus
  · rfl

theorem dropSign_of_notMem (t : Text) (h : 'o' ∉ t) : dropSign t = t := by
  unfold dropSign
  split
  · simp at h
  · rfl

theorem exists_eq_append_dropSign (t : Text) : ∃ sign ∈ [[], ['0', 'o']], t = sign ++ dropSign t := by
  unfold dropSign
  split
  · exact ⟨['0', 'o'], by simp, rfl⟩
  · exact ⟨[], by simp, rfl⟩

section
variable {plus : Text} (hplus : plus ∈ [[], ['+']]) (ds : List (Fin 8))

include hplus

theorem readOctal_digits (hds : ds ≠ []) : readOctal (plus ++ digits ds) =
    if value ds < UInt32.size then .ok (value ds) else .error .tooLarge := by
  have hne : digits ds ≠ [] := fun h => hds (List.map_eq_nil_iff.1 h)
  have hread : readOctal (plus ++ digits ds) = readDigits 0 (digits ds) := by
    rcases List.mem_pair.1 hplus with rfl | rfl
    · refine readOctal_of_head?_ne _ hne fun hhead => ?_
      exact notMem_digits ds '+' rfl (List.mem_of_mem_head? hhead)
    · exact readOctal_of_plus _ hne
  rw [hread, readDigits_digits 0 ds (by decide), valueFrom_zero]

theorem dropSign_append {sign : Text} (hsign : sign ∈ [[], ['0', 'o']]) :
    dropSign (sign ++ (plus ++ digits ds)) = plus ++ digits ds := by
  have ho : 'o' ∉ plus ++ digits ds := by
    refine List.not_mem_append ?_ (notMem_digits ds 'o' rfl)
    rcases List.mem_pair.1 hplus with rfl | rfl <;> decide
  rcases List.mem_pair.1 hsign with rfl | rfl
  · exact dropSign_of_notMem _ ho
  · rfl

end

theorem exists_digits_of_readOctal (t : Text) (m : Nat) (h : readOctal t = .ok m) :
    ∃ plus ∈ [[], ['+']], ∃ ds, ds ≠ [] ∧ t = plus ++ digits ds := by
  unfold readOctal at h
  split at h
  · cases h
  · cases h
  · next t ht =>
    obtain ⟨ds, rfl⟩ := exists_digits_of_readDigits 0 t m h
    refine ⟨['+'], by simp, ds, ?_, rfl⟩
    rintro rfl
    exact ht rfl
  · next ht _ _ =>
    obtain ⟨ds, rfl⟩ := exists_digits_of_readDigits 0 t m h
    refine ⟨[], by simp, ds, ?_, rfl⟩
    rintro rfl
    exact ht rfl

/-! ## Texts for permission bits -/

theorem mask_eq_self (m : Mode) (h : m ≤ max) : mask m = m :=
  Nat.mod_eq_of_lt (Nat.lt_succ_of_le h)

/-- What reading comes to where a number is spelled. -/
theorem read_of_spells {t : Text} {n : Nat} (h : Spells t n) : read t =
    if n ≤ max then .ok n
    else .error (if n < UInt32.size then .tooLarge t else .notOctal t .tooLarge) := by
  obtain ⟨sign, hsign, plus, hplus, ds, hds, rfl, rfl⟩ := h
  unfold read
  rw [dropSign_append hplus ds hsign, readOctal_digits hplus ds hds]
  by_cases hword : value ds < UInt32.size
  · rw [if_pos hword, if_pos hword]
  · have hle : ¬ value ds ≤ max := fun hle => hword (Nat.lt_of_le_of_lt hle (by decide))
    rw [if_neg hword, if_neg hword, if_neg hle]

/-- Where none is spelled the text is no octal number. -/
theorem read_cases (t : Text) : (∃ n, Spells t n) ∨ ∃ why, read t = .error (.notOctal t why) := by
  unfold read
  cases h : readOctal (dropSign t) with
  | error why => exact Or.inr ⟨why, rfl⟩
  | ok m =>
    obtain ⟨sign, hsign, ht⟩ := exists_eq_append_dropSign t
    obtain ⟨plus, hplus, ds, hds, hdigits⟩ := exists_digits_of_readOctal _ m h
    exact Or.inl ⟨value ds, sign, hsign, plus, hplus, ds, hds, hdigits ▸ ht, rfl⟩

theorem read_eq_ok_iff (t : Text) (m : Mode) : read t = .ok m ↔ Spells t m ∧ m ≤ max := by
  constructor
  · intro h
    rcases read_cases t with ⟨n, hn⟩ | ⟨why, herror⟩
    · rw [read_of_spells hn] at h
      split at h
      · next hle =>
        cases h
        exact ⟨hn, hle⟩
      · cases h
    · rw [herror] at h
      cases h
  · rintro ⟨hm, hle⟩
    rw [read_of_spells hm, if_pos hle]

end Mode

end Stanzas
