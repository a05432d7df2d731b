import Stanzas.Destination
import Stanzas.Proofs.Files.Place
import Stanzas.Proofs.Files.Stage

/-!
# Replacing the text of a file

`carryOut` gives what an action on files comes to on a tree, and the tree after it. Replacing a text
takes several steps on files, and yet it comes to one: once the directories of the path are made,
the new text is put in the place of the old one at once, or nothing happens (`putText`).

    carryOut (p.replaceText text base mode) t = match (t.withDirs p).putText p text base mode with
      | .ok t' => (.ok (), t')
      | .error failure => (.error failure, t.withDirs p)

unless making the directories or the staged file has failed (`carryOut_replaceText`).
-/

namespace Stanzas

/-- What an action on files comes to on a tree, and the tree after it. -/
def carryOut {α : Type} (x : ExceptT Failure (StateM FileTree) α) (t : FileTree) :
    Except Failure α × FileTree :=
  x.run.run t

section
variable {σ α β : Type} (x : ExceptT Failure (StateM σ) α) (f : α → ExceptT Failure (StateM σ) β) (s : σ)

theorem run_run_bind : (x >>= f).run.run s = match x.run.run s with
    | (.ok a, s') => (f a).run.run s'
    | (.error failure, s') => (.error failure, s') := by
  rw [ExceptT.run_bind, StateT.run_bind]
  cases x.run.run s with
  | mk result s' => cases result <;> rfl

/-- A result at the end is one after each step. -/
theorem ok_of_run_bind {b : β} {s' : σ} (h : (x >>= f).run.run s = (.ok b, s')) :
    ∃ a s₁, x.run.run s = (.ok a, s₁) ∧ (f a).run.run s₁ = (.ok b, s') := by
  rw [run_run_bind] at h
  cases hx : x.run.run s with
  | mk result s₁ =>
    rw [hx] at h
    cases result with
    | error failure => cases h
    | ok a => exact ⟨a, s₁, rfl, h⟩

/-- A failure at the end is one of the first step, or one of what comes after it. -/
theorem error_of_run_bind {failure : Failure} {s' : σ}
    (h : (x >>= f).run.run s = (.error failure, s')) :
    x.run.run s = (.error failure, s') ∨
      ∃ a s₁, x.run.run s = (.ok a, s₁) ∧ (f a).run.run s₁ = (.error failure, s') := by
  rw [run_run_bind] at h
  cases hx : x.run.run s with
  | mk result s₁ =>
    rw [hx] at h
    cases result with
    | error failure' =>
      cases h
      exact Or.inl rfl
    | ok a => exact Or.inr ⟨a, s₁, rfl, h⟩

theorem run_run_tryCatch (handle : Failure → ExceptT Failure (StateM σ) α) :
    (tryCatch x handle).run.run s = match x.run.run s with
      | (.ok a, s') => (.ok a, s')
      | (.error failure, s') => (handle failure).run.run s' := by
  unfold ExceptT.run
  simp only [tryCatch, tryCatchThe, MonadExceptOf.tryCatch, ExceptT.tryCatch, ExceptT.mk,
    StateT.run_bind]
  cases StateT.run x s with
  | mk result s' => cases result <;> rfl

theorem run_run_lift_bind (x : StateM σ α) :
    ((x : ExceptT Failure (StateM σ) α) >>= f).run.run s = (f (x.run s).1).run.run (x.run s).2 := by
  rw [run_run_bind]
  rfl

theorem run_run_orFail (why : Fault → Failure) (x : StateM σ (Except Fault α)) :
    (orFail why x).run.run s = ((x.run s).1.mapError why, (x.run s).2) := rfl

theorem ok_of_run_orFail {why : Fault → Failure} {x : StateM σ (Except Fault α)} {a : α} {s' : σ}
    (h : (orFail why x).run.run s = (.ok a, s')) : x.run s = (.ok a, s') := by
  rw [run_run_orFail] at h
  cases hx : x.run s with
  | mk result s₁ =>
    rw [hx] at h
    cases result with
    | error fault => cases h
    | ok b =>
      cases h
      rfl

theorem error_of_run_orFail {why : Fault → Failure} {x : StateM σ (Except Fault α)}
    {failure : Failure} {s' : σ} (h : (orFail why x).run.run s = (.error failure, s')) :
    ∃ fault, x.run s = (.error fault, s') := by
  rw [run_run_orFail] at h
  cases hx : x.run s with
  | mk result s₁ =>
    rw [hx] at h
    cases result with
    | error fault => exact ⟨fault, congrArg _ (Prod.mk.inj h).2⟩
    | ok b => cases h

end

section
variable {α β : Type} (x : ExceptT Failure (StateM FileTree) α)
  (f : α → ExceptT Failure (StateM FileTree) β) (t : FileTree)

theorem carryOut_bind : carryOut (x >>= f) t = match carryOut x t with
    | (.ok a, t') => carryOut (f a) t'
    | (.error failure, t') => (.error failure, t') := by
  unfold carryOut
  rw [run_run_bind]
  cases x.run.run t with
  | mk result t' => cases result <;> rfl

theorem carryOut_tryCatch (handle : Failure → ExceptT Failure (StateM FileTree) α) :
    carryOut (tryCatch x handle) t = match carryOut x t with
      | (.ok a, t') => (.ok a, t')
      | (.error failure, t') => carryOut (handle failure) t' := by
  unfold carryOut
  rw [run_run_tryCatch]
  cases x.run.run t with
  | mk result t' => cases result <;> rfl

theorem carryOut_lift_bind (x : StateM FileTree α) :
    carryOut ((x : ExceptT Failure (StateM FileTree) α) >>= f) t =
      carryOut (f (x.run t).1) (x.run t).2 := run_run_lift_bind f t x

theorem carryOut_orFail (why : Fault → Failure) (x : StateM FileTree (Except Fault α)) :
    carryOut (orFail why x) t = ((x.run t).1.mapError why, (x.run t).2) := run_run_orFail t why x

end

namespace FileTree

variable (t : FileTree) (p : Path)

/-! ## Operations on a tree -/

theorem run_read : (Files.read p : StateM FileTree _).run t = (t.read p, t) := rfl

theorem run_mode : (Files.mode p : StateM FileTree _).run t = ((t.mode p).map some, t) := rfl

theorem run_stage (bytes : ByteArray) : (Files.stage p bytes : StateM FileTree _).run t =
    onTree (fun t => t.stage p bytes) t := rfl

theorem run_setMode (m : Mode) : (Files.setMode p m : StateM FileTree _).run t =
    onTree (fun t => (t.setMode p m).map ((), ·)) t := rfl

theorem run_rename (src : Path) : (Files.rename src p : StateM FileTree _).run t =
    onTree (fun t => (t.rename src p).map ((), ·)) t := rfl

theorem run_remove : (Files.remove p : StateM FileTree _).run t = ((), t.remove p) := rfl

/-! ## Reading -/

/-- What reading the text at a path comes to. -/
def textAt (create : Bool) : Except Failure Text :=
  match t.read p with
  | .error .noEntry => if create then .ok [] else .error (.missing p)
  | .error fault => .error (.read p fault)
  | .ok bytes =>
    match ofUTF8? bytes with
    | some s => .ok s
    | none => .error (.read p .notText)

/-- The text of the file at a path, which is empty where there is no file. -/
def text? : Option Text :=
  match t.file? p with
  | none => some []
  | some (bytes, _) => ofUTF8? bytes

theorem carryOut_readText (create : Bool) :
    carryOut (p.readText create) t = (t.textAt p create, t) := by
  unfold Path.readText textAt
  rw [carryOut_lift_bind, run_read]
  dsimp only
  cases t.read p with
  | error fault => cases fault <;> cases create <;> rfl
  | ok bytes =>
    dsimp only
    cases ofUTF8? bytes <;> rfl

/-- A text that is read is that of a file, or there is no file. -/
theorem exists_of_textAt (create : Bool) (s : Text) (h : t.textAt p create = .ok s) :
    (∃ k bytes mode, t.find p = .ok (.found k (.file bytes mode)) ∧ ofUTF8? bytes = some s) ∨
      t.lookup p = .error .noEntry ∧ t.file? p = none ∧ s = [] := by
  unfold textAt read at h
  cases hlookup : t.lookup p with
  | error fault =>
    rw [hlookup] at h
    refine Or.inr ?_
    cases fault <;> cases create <;> cases h
    refine ⟨rfl, ?_, rfl⟩
    cases hfile : t.file? p with
    | none => rfl
    | some file =>
      obtain ⟨k, hk⟩ := (t.file?_eq_some_iff p file.1 file.2).1 hfile
      rw [(t.lookup_eq_ok_iff p k _).2 hk] at hlookup
      cases hlookup
  | ok found =>
    obtain ⟨k, n⟩ := found
    rw [hlookup] at h
    cases n with
    | dir mode => cases h
    | file bytes mode =>
      refine Or.inl ⟨k, bytes, mode, (t.lookup_eq_ok_iff p k _).1 hlookup, ?_⟩
      dsimp only at h
      split at h
      · next s' hs =>
        cases h
        exact hs
      · cases h

theorem text?_of_textAt (create : Bool) (s : Text) (h : t.textAt p create = .ok s) :
    t.text? p = some s := by
  unfold text?
  rcases t.exists_of_textAt p create s h with ⟨k, bytes, mode, hfind, hs⟩ | ⟨-, hfile, rfl⟩
  · rw [t.file?_of_find p k bytes mode hfind]
    exact hs
  · rw [hfile]

/-- The text of a file that is there is the one that its bytes stand for. -/
theorem bytes_of_textAt (create : Bool) (s : Text) (h : t.textAt p create = .ok s) (k : Key)
    (bytes : ByteArray) (mode : Mode) (hk : t.find p = .ok (.found k (.file bytes mode))) :
    bytes = utf8 s := by
  have htext := t.text?_of_textAt p create s h
  unfold text? at htext
  rw [t.file?_of_find p k bytes mode hk] at htext
  exact (ofUTF8?_eq_some_iff.1 htext).symm

theorem textAt_of_file? (create : Bool) (s : Text) (mode : Mode)
    (h : t.file? p = some (utf8 s, mode)) : t.textAt p create = .ok s := by
  obtain ⟨k, hk⟩ := (t.file?_eq_some_iff p _ mode).1 h
  unfold textAt read
  rw [(t.lookup_eq_ok_iff p k _).2 hk]
  dsimp only
  rw [ofUTF8?_utf8]

theorem mode_of_find (k : Key) (n : Node) (h : t.find p = .ok (.found k n)) :
    t.mode p = .ok (Mode.mask n.mode) := by
  unfold mode
  rw [(t.lookup_eq_ok_iff p k n).2 h]
  rfl

theorem mask_of_mode (m : Mode) (hm : t.mode p = .ok m) : Mode.mask m = m := by
  obtain ⟨found, -, rfl⟩ := exists_of_map_eq_ok hm
  exact Mode.mask_mask _

theorem eq_of_mode (k : Key) (n : Node) (h : t.find p = .ok (.found k n)) (m : Mode)
    (hm : t.mode p = .ok m) : m = Mode.mask n.mode :=
  Except.ok.inj (hm.symm.trans (t.mode_of_find p k n h))

/-- To read a text is no conflict. -/
theorem textAt_ne_conflict (create : Bool) (q : Path) (expected found : Digest) :
    t.textAt p create ≠ .error (.conflict q expected found) := by
  unfold textAt
  intro h
  split at h
  · split at h <;> cases h
  · cases h
  · split at h <;> cases h

/-! ## Replacing -/

/-- The bits that are asked for, or else those of what is there. -/
def bitsFor (mode : Option Mode) : Option Mode := mode <|> (t.mode p).toOption

/-- Where there is no directory the bits are those of the file, if there is one. -/
theorem mask_bitsFor {t : FileTree} (p : Path) (mode : Option Mode) {spot : Spot}
    (h : t.find p = .ok spot) (hspot : ¬ spot.IsDir) :
    (t.bitsFor p mode).map Mode.mask = (mode <|> (t.file? p).map Prod.snd).map Mode.mask := by
  have hbits : (t.mode p).toOption = ((t.file? p).map Prod.snd).map Mode.mask := by
    unfold FileTree.mode lookup file?
    rw [h]
    cases spot with
    | free k => rfl
    | found k n =>
      cases n with
      | dir m => exact absurd trivial hspot
      | file bytes m => rfl
  unfold bitsFor
  rw [hbits]
  cases mode with
  | some m => rfl
  | none =>
    cases t.file? p with
    | none => rfl
    | some file => exact congrArg some (Mode.mask_mask file.2)

/-- The tree with a text in the place of one with the digest `base`. -/
def putText (text : Text) (base : Digest) (mode : Option Mode) : Except Failure FileTree :=
  match t.textAt p true with
  | .error failure => .error failure
  | .ok now =>
    if Digest.ofText now ≠ base then .error (.conflict p base (.ofText now))
    else
      match t.target p with
      | .error fault => .error (.write p fault)
      | .ok l =>
        .ok (t.insert l (.file (utf8 text) (((t.bitsFor p mode).map Mode.mask).getD stagedMode)))

theorem run_bitsFor (mode : Option Mode) :
    (p.bitsFor mode : StateM FileTree _).run t = (t.bitsFor p mode, t) := by
  unfold Path.bitsFor bitsFor
  cases mode with
  | some m => rfl
  | none =>
    rw [StateT.run_bind, run_mode]
    cases t.mode p <;> rfl

section
variable {t p} {staged : Path} {k : Key} (h : t.Unseen p staged k) (ht : t.Sound) (text : Text)
  (base : Digest) (mode : Option Mode)

include h ht

theorem carryOut_rename (m : Mode) :
    carryOut (orFail (.write p) (Files.rename staged p)) (t.insert k (.file (utf8 text) m)) =
      match t.target p with
      | .error fault => (.error (.write p fault), t.insert k (.file (utf8 text) m))
      | .ok l => (.ok (), t.insert l (.file (utf8 text) m)) := by
  rw [carryOut_orFail, run_rename, onTree, h.rename ht]
  cases t.target p <;> rfl

theorem carryOut_setMode (m m' : Mode) :
    carryOut (orFail (.write p) (Files.setMode staged m')) (t.insert k (.file (utf8 text) m)) =
      (.ok (), t.insert k (.file (utf8 text) (Mode.mask m'))) := by
  rw [carryOut_orFail, run_setMode, onTree, h.setMode ht]
  rfl

/-- The staged file comes to its place, or it is all that is left. -/
theorem carryOut_settle :
    match t.putText p text base mode with
    | .ok t' =>
      carryOut (p.settle staged base mode) (t.insert k (.file (utf8 text) stagedMode)) = (.ok (), t')
    | .error failure => ∃ m,
      carryOut (p.settle staged base mode) (t.insert k (.file (utf8 text) stagedMode)) =
        (.error failure, t.insert k (.file (utf8 text) m)) := by
  have hsame := h.agree (.file (utf8 text) stagedMode)
  have htext : (t.insert k (.file (utf8 text) stagedMode)).textAt p true = t.textAt p true := by
    unfold textAt FileTree.read
    rw [hsame.lookup_eq]
  have hbits : (t.insert k (.file (utf8 text) stagedMode)).bitsFor p mode = t.bitsFor p mode := by
    unfold bitsFor FileTree.mode
    rw [hsame.lookup_eq]
  unfold Path.settle putText
  rw [carryOut_bind, carryOut_readText, htext]
  cases t.textAt p true with
  | error failure => exact ⟨_, rfl⟩
  | ok now =>
    dsimp only
    by_cases hbase : Digest.ofText now = base
    · rw [if_neg (not_not.2 hbase), if_neg (not_not.2 hbase), carryOut_lift_bind, run_bitsFor, hbits]
      dsimp only
      -- either way the staged file has its bits, and only has to be moved
      cases t.bitsFor p mode with
      | none =>
        rw [carryOut_rename h ht]
        cases t.target p with
        | error fault => exact ⟨_, rfl⟩
        | ok l => rfl
      | some m =>
        dsimp only
        rw [carryOut_bind, carryOut_setMode h ht]
        dsimp only
        rw [carryOut_rename h ht]
        cases t.target p with
        | error fault => exact ⟨_, rfl⟩
        | ok l => rfl
    · rw [if_pos hbase, if_pos hbase]
      exact ⟨_, rfl⟩

end

/-- Replacing a text comes to putting it in its place at once. -/
theorem carryOut_replaceText (ht : t.Sound) (text : Text) (base : Digest) (mode : Option Mode) :
    (∃ fault, carryOut (p.replaceText text base mode) t = (.error (.write p fault), t.withDirs p)) ∨
      carryOut (p.replaceText text base mode) t =
        match (t.withDirs p).putText p text base mode with
        | .ok t' => (.ok (), t')
        | .error failure => (.error failure, t.withDirs p) := by
  have hgrows := grows_withDirs ht p
  unfold Path.replaceText
  rw [carryOut_bind, carryOut_orFail]
  cases hmade : ((makeDirs p.directory : StateM FileTree (Except Fault Unit)).run t).1 with
  | error fault => exact Or.inl ⟨fault, rfl⟩
  | ok _ =>
    show (∃ fault, carryOut _ (t.withDirs p) = _) ∨ carryOut _ (t.withDirs p) = _
    generalize t.withDirs p = t at hgrows
    rw [carryOut_bind, carryOut_orFail, run_stage, onTree]
    cases hstage : t.stage p (utf8 text) with
    | error fault => exact Or.inl ⟨fault, rfl⟩
    | ok made =>
      obtain ⟨staged, t'⟩ := made
      obtain ⟨k, hk, rfl⟩ := t.unseen_of_stage p hgrows.sound (utf8 text) staged t' hstage
      refine Or.inr ?_
      have hsettle := carryOut_settle hk hgrows.sound text base mode
      dsimp only [Except.mapError]
      rw [carryOut_tryCatch]
      cases hput : t.putText p text base mode with
      | ok t' =>
        rw [hput] at hsettle
        rw [hsettle]
      | error failure =>
        rw [hput] at hsettle
        obtain ⟨m, hsettle⟩ := hsettle
        rw [hsettle]
        dsimp only
        rw [carryOut_lift_bind, run_remove, hk.remove hgrows.sound]
        rfl

section
variable {t p} {text : Text} {base : Digest} {mode : Option Mode} {t' : FileTree}

/-- A text is put only in the place of one with the digest `base`. -/
theorem putText_eq_ok_iff : t.putText p text base mode = .ok t' ↔
    ∃ now l, t.textAt p true = .ok now ∧ Digest.ofText now = base ∧ t.target p = .ok l ∧
      t' = t.insert l (.file (utf8 text) (((t.bitsFor p mode).map Mode.mask).getD stagedMode)) := by
  unfold putText
  cases t.textAt p true with
  | error failure => simp
  | ok now =>
    dsimp only
    split
    · next hbase => simpa using fun h => absurd h hbase
    · next hbase =>
      have hbase := not_not.1 hbase
      cases t.target p <;> simp [hbase, eq_comm]

/-- A conflict comes from another text than that with the digest `base`. -/
theorem exists_of_putText_eq_conflict {q : Path} {expected found : Digest}
    (h : t.putText p text base mode = .error (.conflict q expected found)) :
    ∃ now, t.textAt p true = .ok now ∧ Digest.ofText now ≠ base := by
  unfold putText at h
  split at h
  · next failure hnow =>
    cases h
    exact absurd hnow (t.textAt_ne_conflict p true q expected found)
  · next now hnow =>
    split at h
    · next hbase => exact ⟨now, hnow, hbase⟩
    · split at h <;> cases h

variable (ht : t.Sound)

include ht

theorem putText_of_replaceText (h : carryOut (p.replaceText text base mode) t = (.ok (), t')) :
    (t.withDirs p).putText p text base mode = .ok t' := by
  rcases t.carryOut_replaceText p ht text base mode with ⟨fault, hfault⟩ | hput
  · rw [hfault] at h
    cases h
  · rw [hput] at h
    split at h
    · next hok =>
      cases h
      exact hok
    · cases h

/-- If a text cannot be replaced, there may be more directories, but nothing else is different. -/
theorem of_replaceText_eq_error {failure : Failure}
    (h : carryOut (p.replaceText text base mode) t = (.error failure, t')) :
    t' = t.withDirs p ∧ ((∃ fault, failure = .write p fault) ∨
      (t.withDirs p).putText p text base mode = .error failure) := by
  rcases t.carryOut_replaceText p ht text base mode with ⟨fault, hfault⟩ | hput
  · rw [hfault] at h
    cases h
    exact ⟨rfl, Or.inl ⟨fault, rfl⟩⟩
  · rw [hput] at h
    split at h
    · cases h
    · next herror =>
      cases h
      exact ⟨rfl, Or.inr herror⟩

end

/-! ## The text at the path -/

section
variable {t p} {t' : FileTree} (ht : t.Sound)

include ht

theorem text?_withDirs (hp : t.Settled p) : (t.withDirs p).text? p = t.text? p := by
  unfold text?
  rw [(grows_withDirs ht p).file?_eq ht p hp]

/-- A path that is not settled leads to no file. -/
theorem text?_of_not_settled (hp : ¬ t.Settled p) : t.text? p = some [] := by
  unfold text?
  cases hfile : t.file? p with
  | none => rfl
  | some file => exact absurd (settled_of_file? ht p file hfile) hp

theorem keepsDirs_withDirs (p : Path) : t.KeepsDirs (t.withDirs p) := (grows_withDirs ht p).keepsDirs

theorem keepsDirs_replaceText (p : Path) (text : Text) (base : Digest) (mode : Option Mode) :
    t.KeepsDirs (carryOut (p.replaceText text base mode) t).2 := by
  have hdirs := keepsDirs_withDirs ht p
  cases h : carryOut (p.replaceText text base mode) t with
  | mk result t' =>
    cases result with
    | error failure =>
      obtain ⟨rfl, -⟩ := of_replaceText_eq_error ht h
      exact hdirs
    | ok _ =>
      obtain ⟨now, l, -, -, hl, rfl⟩ := putText_eq_ok_iff.1 (putText_of_replaceText ht h)
      exact hdirs.trans (keepsDirs_insert_of_target hdirs.sound p l hl _ _)

section
variable {text : Text} {base : Digest} {mode : Option Mode}

/-- A text that has been replaced is in a file with the bits that were asked for, or else with those
of the file that was there once the directories of the path were. -/
theorem exists_of_replaceText (h : carryOut (p.replaceText text base mode) t = (.ok (), t')) :
    ∃ spot, (t.withDirs p).find p = .ok spot ∧ ¬ spot.IsDir ∧
      t' = (t.withDirs p).insert spot.key (.file (utf8 text)
        (((mode <|> ((t.withDirs p).file? p).map Prod.snd).map Mode.mask).getD stagedMode)) := by
  obtain ⟨now, l, -, -, hl, rfl⟩ := putText_eq_ok_iff.1 (putText_of_replaceText ht h)
  obtain ⟨spot, hfind, hspot, rfl⟩ := exists_of_target p l hl
  refine ⟨spot, hfind, hspot, ?_⟩
  rw [mask_bitsFor p mode hfind hspot]

theorem file?_of_replaceText (h : carryOut (p.replaceText text base mode) t = (.ok (), t')) :
    t'.file? p = some (utf8 text,
      ((mode <|> ((t.withDirs p).file? p).map Prod.snd).map Mode.mask).getD stagedMode) := by
  obtain ⟨spot, hfind, hspot, rfl⟩ := exists_of_replaceText ht h
  exact file?_of_find _ p _ _ _ (find_insert_self (keepsDirs_withDirs ht p).sound p hfind hspot _ _)

/-- After a text has been replaced it is the new one, and the text with the digest `base` was there
once the directories of the path were. -/
theorem text?_of_replaceText (h : carryOut (p.replaceText text base mode) t = (.ok (), t')) :
    t'.text? p = some text ∧ ∃ now, (t.withDirs p).text? p = some now ∧ Digest.ofText now = base := by
  have hfile := file?_of_replaceText ht h
  obtain ⟨now, -, hnow, hbase, -, -⟩ := putText_eq_ok_iff.1 (putText_of_replaceText ht h)
  refine ⟨?_, now, text?_of_textAt _ p true now hnow, hbase⟩
  unfold text?
  rw [hfile]
  exact ofUTF8?_utf8 text

/-- A conflict comes from another text that was there once the directories of the path were. -/
theorem exists_of_conflict {q : Path} {expected found : Digest}
    (h : carryOut (p.replaceText text base mode) t = (.error (.conflict q expected found), t')) :
    ∃ now, (t.withDirs p).text? p = some now ∧ Digest.ofText now ≠ base := by
  obtain ⟨-, ⟨fault, hfault⟩ | hput⟩ := of_replaceText_eq_error ht h
  · cases hfault
  · obtain ⟨now, hnow, hbase⟩ := exists_of_putText_eq_conflict hput
    exact ⟨now, text?_of_textAt _ p true now hnow, hbase⟩

end

end

end FileTree

end Stanzas
