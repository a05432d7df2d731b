import Mathlib.Data.Prod.Basic
import Stanzas.Proofs.Destination
import Stanzas.Proofs.Files.Mode

/-!
# Permission bits that have been given

A path is given permission bits alone or with a new text (`GivesBits`). Either way it leads to these
bits afterwards, as far as they are permission bits, and a look at them tells so:

    t.GivesBits p m t' → carryOut (p.modeDiffers bits) t' = (.ok (decide (bits ≠ Mode.mask m)), t')
                                                                    (carryOut_modeDiffers_of_gives)

What is read from a text are permission bits as a whole, and so the look finds just these.
-/

namespace Stanzas

/-- An entry with other permission bits. -/
def Node.withMode (m : Mode) : Node → Node
  | .dir _ => .dir m
  | .file bytes _ => .file bytes m

theorem Node.mode_withMode (m : Mode) (n : Node) : (n.withMode m).mode = m := by
  cases n <;> rfl

/-- A look at the bits of what a path leads to. -/
theorem run_run_modeDiffers {σ : Type} [Files (StateM σ)] (p : Path) (m : Mode) (bits : Option Mode)
    (s : σ) (h : (Files.mode p : StateM σ (Except Fault (Option Mode))).run s = (.ok bits, s)) :
    (p.modeDiffers m : ExceptT Failure (StateM σ) Bool).run.run s =
      (.ok (bits.any fun b => Mode.mask b ≠ m), s) := by
  unfold Path.modeDiffers
  rw [run_run_bind, run_run_orFail, h]
  rfl

namespace FileTree

/-- Whether a path is given permission bits, alone or with a new text. -/
inductive GivesBits (t : FileTree) (p : Path) (m : Mode) (t' : FileTree) : Prop
  | alone (h : carryOut (p.setMode m) t = (.ok (), t'))
  | withText {text : Text} {base : Digest}
      (h : carryOut (p.replaceText text base (some m)) t = (.ok (), t'))

/-! ## Other bits of one entry -/

/-- Whether two trees differ in nothing but the bits of the entry `n` under the key `k`. -/
def OtherBits (t : FileTree) (k : Key) (n : Node) (m : Mode) (t' : FileTree) : Prop :=
  ∀ l, t'.node? l = if l = k then some (n.withMode m) else t.node? l

section
variable {t t' : FileTree} {k : Key} {n : Node} {m : Mode} (h : t.OtherBits k n m t')
  (hk : t.node? k = some n) (ht : t.Sound)

include h hk

theorem OtherBits.isDir (l : Key) (hl : t.IsDir l) : t'.IsDir l := by
  obtain ⟨m', hm'⟩ := hl
  unfold IsDir
  rw [h l]
  split
  · next heq =>
    rw [heq, hk] at hm'
    cases hm'
    exact ⟨m, rfl⟩
  · exact ⟨m', hm'⟩

include ht

theorem OtherBits.sound : t'.Sound := by
  intro l n' hl
  refine h.isDir hk _ ?_
  rw [h l] at hl
  split at hl
  · next heq => exact ht l n (heq ▸ hk)
  · exact ht l n' hl

omit hk in
/-- The path leads to the same entry. -/
theorem OtherBits.find_eq (p : Path) (hp : t.find p = .ok (.found k n)) :
    t'.find p = .ok (.found k (n.withMode m)) := by
  have hk := t.node?_of_find ht p k n hp
  have hnode : t'.node? k = some (n.withMode m) := (h k).trans (if_pos rfl)
  cases n with
  | file bytes mode =>
    rw [t.find_mono t' (h.isDir hk) ht p _ hp id]
    exact congrArg _ ((t'.spotAt_eq_found_iff k k _).2 ⟨rfl, hnode⟩)
  | dir mode =>
    obtain ⟨m', hm'⟩ := t.find_dir_mono t' (h.isDir hk) ht p k mode hp
    rw [t'.node?_of_find (h.sound hk ht) p k _ hm'] at hnode
    rw [hm', Option.some.inj hnode]

end

/-! ## Giving bits -/

section
variable {t t' : FileTree} {p : Path} {m : Mode} (ht : t.Sound)

include ht

/-- Setting the bits of what is there changes nothing else. -/
theorem otherBits_of_setMode (h : t.setMode p m = .ok t') :
    ∃ k n, t.find p = .ok (.found k n) ∧ t.OtherBits k n (Mode.mask m) t' := by
  unfold setMode at h
  split at h
  · next k bytes mode hk =>
    cases h
    have hfind := (t.lookup_eq_ok_iff p k _).1 hk
    have hne : k ≠ [] := by
      rintro rfl
      exact t.not_isDir_of_file [] bytes mode (t.node?_of_find ht p [] _ hfind) t.isDir_nil
    exact ⟨k, _, hfind, fun _ => node?_insert hne⟩
  · next k mode hk =>
    cases h
    refine ⟨k, _, (t.lookup_eq_ok_iff p k _).1 hk, fun l => ?_⟩
    split
    · next hnil =>
      -- the directory at the top has its bits in the tree itself
      subst hnil
      unfold node?
      split <;> rfl
    · next hne => exact node?_insert hne
  · cases h

theorem mode_of_setMode (h : t.setMode p m = .ok t') : t'.mode p = .ok (Mode.mask m) := by
  obtain ⟨k, n, hfind, hother⟩ := otherBits_of_setMode ht h
  rw [t'.mode_of_find p k _ (hother.find_eq ht p hfind), Node.mode_withMode, Mode.mask_mask]

omit ht in
theorem carryOut_path_setMode_eq_ok_iff :
    carryOut (p.setMode m) t = (.ok (), t') ↔ t.setMode p m = .ok t' := by
  unfold Path.setMode
  rw [carryOut_orFail, run_setMode, onTree]
  cases t.setMode p m <;> simp [Except.map, Except.mapError]

theorem GivesBits.mode_eq (h : t.GivesBits p m t') : t'.mode p = .ok (Mode.mask m) := by
  cases h with
  | alone h => exact mode_of_setMode ht (carryOut_path_setMode_eq_ok_iff.1 h)
  | withText h =>
    obtain ⟨k, hfind⟩ := (t'.file?_eq_some_iff p _ _).1 (file?_of_replaceText ht h)
    exact (t'.mode_of_find p k _ hfind).trans (congrArg _ (Mode.mask_mask m))

end

/-- A look at bits that have been given finds them, and no others. -/
theorem carryOut_modeDiffers_of_gives {t t' : FileTree} (ht : t.Sound) (p : Path) (m : Mode)
    (h : t.GivesBits p m t') (bits : Mode) :
    carryOut (p.modeDiffers bits) t' = (.ok (decide (bits ≠ Mode.mask m)), t') := by
  have hlook : (Files.mode p : StateM FileTree (Except Fault (Option Mode))).run t' =
      (.ok (some (Mode.mask m)), t') := by
    rw [run_mode, h.mode_eq ht]
    rfl
  refine (run_run_modeDiffers p bits _ t' hlook).trans ?_
  rw [Option.any_some, Mode.mask_mask]
  simp only [ne_comm]

end FileTree

namespace Mode

/-- Just the numbers in octal digits that are permission bits are read, and a look at what has been
given such bits finds these. -/
theorem read_iff_and_lasts (s : Text) :
    (∀ m, read s = .ok m ↔ Spells s m ∧ m ≤ max) ∧
      (∀ n, Spells s n → max < n →
        read s = .error (if n < UInt32.size then .tooLarge s else .notOctal s .tooLarge)) ∧
      ((∃ n, Spells s n) ∨ ∃ why, read s = .error (.notOctal s why)) ∧
      ∀ m, read s = .ok m → mask m = m ∧
        ∀ (t t' : FileTree) (p : Path), t.Sound → t.GivesBits p m t' → ∀ bits,
          carryOut (p.modeDiffers bits) t' = (.ok (decide (bits ≠ m)), t') := by
  refine ⟨read_eq_ok_iff s, fun n hn hlarge => ?_, read_cases s, fun m hm => ?_⟩
  · rw [read_of_spells hn, if_neg (Nat.not_le.2 hlarge)]
  · obtain ⟨-, hle⟩ := (read_eq_ok_iff s m).1 hm
    refine ⟨mask_eq_self m hle, fun t t' p ht h bits => ?_⟩
    rw [FileTree.carryOut_modeDiffers_of_gives ht p m h, mask_eq_self m hle]

/-- Zeros in front count for nothing, and the second number has the same last 32 bits as the first. -/
theorem read_iff_and_lasts_of_leading_zeros :
    read "0o+00644".toList = .ok 0o644 ∧ mask 0o644 = 0o644 ∧
      read "40000000644".toList = .error (.notOctal "40000000644".toList .tooLarge) ∧
      ∃ t t',
        carryOut (Path.setMode ⟨['f']⟩ 0o644) (.ofFile ['f'] (utf8 ['a']) 0o600) = (.ok (), t) ∧
        carryOut (Path.modeDiffers ⟨['f']⟩ 0o644) t = (.ok false, t) ∧
        carryOut (Path.replaceText ⟨['f']⟩ ['b'] (.ofText ['a']) (some 0o644))
          (.ofFile ['f'] (utf8 ['a']) 0o600) = (.ok (), t') ∧
        carryOut (Path.modeDiffers ⟨['f']⟩ 0o644) t' = (.ok false, t') ∧
        carryOut (Path.modeDiffers ⟨['f']⟩ 0o600) t' = (.ok true, t') := by
  obtain ⟨hread, -, -, hlasts⟩ := read_iff_and_lasts "0o+00644".toList
  obtain ⟨-, hlarge, -, -⟩ := read_iff_and_lasts "40000000644".toList
  have hspells : Spells "0o+00644".toList 0o644 :=
    ⟨['0', 'o'], by simp, ['+'], by simp, [0, 0, 6, 4, 4], by simp, rfl, rfl⟩
  have hlong : Spells "40000000644".toList (UInt32.size + 0o644) :=
    ⟨[], by simp, [], by simp, [4, 0, 0, 0, 0, 0, 0, 0, 6, 4, 4], by simp, rfl, rfl⟩
  have hok := (hread 0o644).2 ⟨hspells, by decide⟩
  obtain ⟨hmask, hstays⟩ := hlasts 0o644 hok
  have hsound := FileTree.sound_ofFile ['f'] (utf8 ['a']) 0o600
  obtain ⟨t, hset⟩ : ∃ t,
      carryOut (Path.setMode ⟨['f']⟩ 0o644) (.ofFile ['f'] (utf8 ['a']) 0o600) = (.ok (), t) :=
    ⟨_, Prod.fst_eq_iff.1 (by decide +kernel)⟩
  obtain ⟨t', hput⟩ : ∃ t', carryOut (Path.replaceText ⟨['f']⟩ ['b'] (.ofText ['a']) (some 0o644))
      (.ofFile ['f'] (utf8 ['a']) 0o600) = (.ok (), t') :=
    ⟨_, Prod.fst_eq_iff.1 (by decide +kernel)⟩
  have hlook := hstays _ t' ⟨['f']⟩ hsound (.withText hput)
  exact ⟨hok, hmask, hlarge _ hlong (by decide), t, t', hset,
    hstays _ _ _ hsound (.alone hset) 0o644, hput, hlook 0o644, hlook 0o600⟩

end Mode

end Stanzas
