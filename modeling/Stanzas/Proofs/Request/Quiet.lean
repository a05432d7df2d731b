import Stanzas.Proofs.Destination.Mode
import Stanzas.Request

/-!
# Looking at the file of a request

On a file system where looking at files has no effect (`Files.Quiet`), as on a tree, a request knows
from a look whether the file is there (`run_isThere`) and whether it has the bits that are asked for
(`run_modeDiffers`), and it sets these only if it has not (`run_adjustMode_cases`).
-/

namespace Stanzas

/-- Whether looking at files leaves everything as it is. -/
structure Files.Quiet (σ : Type) [Files (StateM σ)] : Prop where
  read : ∀ (p : Path) (s : σ), ((Files.read p : StateM σ (Except Fault ByteArray)).run s).2 = s
  mode : ∀ (p : Path) (s : σ), ((Files.mode p : StateM σ (Except Fault (Option Mode))).run s).2 = s

theorem FileTree.quiet : Files.Quiet FileTree := ⟨fun _ _ => rfl, fun _ _ => rfl⟩

namespace Request

variable {σ : Type} [Files (StateM σ)]

section
variable (r : Request) (s : σ)

/-- The bits of the file, as they are told. -/
def bitsNow : Except Fault (Option Mode) := ((Files.mode r.path : StateM σ _).run s).1

/-- Whether there is a file with other bits than those that are asked for. -/
def wantsMode : Bool :=
  match r.mode, r.bitsNow s with
  | some mode, .ok bits => bits.any fun b => Mode.mask b ≠ mode
  | _, _ => false

theorem wantsMode_eq_true_iff : r.wantsMode s = true ↔
    ∃ mode bits, r.mode = some mode ∧ r.bitsNow s = .ok (some bits) ∧ Mode.mask bits ≠ mode := by
  unfold wantsMode
  cases r.mode with
  | none => simp
  | some mode =>
    cases r.bitsNow s with
    | error fault => simp
    | ok bits => cases bits <;> simp

end

section
variable (hquiet : Files.Quiet σ) (r : Request) (s : σ)

include hquiet

theorem exists_run_readText (p : Path) (create : Bool) : ∃ result,
    (p.readText create : ExceptT Failure (StateM σ) Text).run.run s = (result, s) := by
  unfold Path.readText
  rw [run_run_lift_bind, hquiet.read]
  cases ((Files.read p : StateM σ (Except Fault ByteArray)).run s).1 with
  | error fault => cases fault <;> cases create <;> exact ⟨_, rfl⟩
  | ok bytes =>
    dsimp only
    cases ofUTF8? bytes <;> exact ⟨_, rfl⟩

theorem run_isThere : (r.path.isThere : StateM σ Bool).run s = ((r.bitsNow s).toOption.isSome, s) := by
  have hmode := hquiet.mode r.path s
  unfold Path.isThere bitsNow
  rw [StateT.run_bind]
  generalize (Files.mode r.path : StateM σ (Except Fault (Option Mode))).run s = found at hmode ⊢
  obtain ⟨bits, s'⟩ := found
  obtain rfl : s' = s := hmode
  cases bits <;> rfl

theorem run_modeDiffers (mode : Mode) (bits : Option Mode) (hbits : r.bitsNow s = .ok bits) :
    (r.path.modeDiffers mode : ExceptT Failure (StateM σ) Bool).run.run s =
      (.ok (bits.any fun b => Mode.mask b ≠ mode), s) :=
  run_run_modeDiffers r.path mode bits s (Prod.ext hbits (hquiet.mode r.path s))

/-- The bits are the right ones, or they are only to be looked at, or they are set. -/
theorem run_adjustMode_cases :
    (r.wantsMode s = false ∧
        (r.adjustMode : ExceptT Failure (StateM σ) Bool).run.run s = (.ok false, s)) ∨
      (r.wantsMode s = true ∧ r.check = true ∧
        (r.adjustMode : ExceptT Failure (StateM σ) Bool).run.run s = (.ok true, s)) ∨
      r.wantsMode s = true ∧ r.check = false ∧ ∃ mode, r.mode = some mode ∧
        (r.adjustMode : ExceptT Failure (StateM σ) Bool).run.run s =
          (do r.path.setMode mode; return true : ExceptT Failure (StateM σ) Bool).run.run s := by
  unfold adjustMode wantsMode
  cases r.mode with
  | none => exact Or.inl ⟨rfl, rfl⟩
  | some mode =>
    dsimp only
    rw [run_run_lift_bind, run_isThere hquiet]
    cases hbits : r.bitsNow s with
    | error fault => exact Or.inl ⟨rfl, rfl⟩
    | ok bits =>
      have hthere : (Except.ok bits : Except Fault (Option Mode)).toOption.isSome = true := rfl
      dsimp only
      rw [if_pos hthere, run_run_bind, run_modeDiffers hquiet r s mode bits hbits]
      cases bits.any fun b => Mode.mask b ≠ mode with
      | false => exact Or.inl ⟨rfl, rfl⟩
      | true =>
        cases r.check with
        | true => exact Or.inr (Or.inl ⟨rfl, rfl, rfl⟩)
        | false => exact Or.inr (Or.inr ⟨rfl, rfl, mode, rfl, rfl⟩)

end

end Request

end Stanzas
