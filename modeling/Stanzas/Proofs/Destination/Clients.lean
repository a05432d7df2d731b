import Mathlib.Data.List.Infix
import Mathlib.Data.Option.Basic
import Stanzas.Proofs.Request

/-!
# Clients of one file

Any number of clients edit one file. Each of them reads it, and writes later what its edit of that
text has come to, as a request does that keeps no copy (`tree_run_read_write`); meanwhile the others
do so too, and somebody else overwrites the file or removes it. No update is lost, if no two texts
that are met have one digest (`no_update_lost`):

* a write that succeeds finds the text that its client has read, and puts the edit of that text there;
* where there is another text the write fails, and the file stays as it is;
* between two steps of somebody else the text is what the edits that were written make of it, one
  after another, and a client that writes as soon as it has read meets no conflict.

The last of these asks for a path that goes up only from directories that are there. A write makes
the directories of its path, also where it fails then; after that `new/../f` is the file `f`, and
before it was none (`not_forall_text?_run_eq`).
-/

namespace Stanzas

/-- Something that happens to a file. -/
inductive Event (ι : Type) where
  /-- A client reads the file. -/
  | read (c : ι)
  /-- A client writes its edit of the text that it has read, if that has changed anything. -/
  | write (c : ι)
  /-- Somebody else writes the file, with the directories that it needs. -/
  | overwrite (bytes : ByteArray) (mode : Mode)
  /-- Somebody else removes the file. -/
  | remove

/-- Whether somebody else does it. -/
def Event.IsForeign {ι : Type} : Event ι → Prop
  | .overwrite _ _ => True
  | .remove => True
  | _ => False

/-- The tree after somebody has written a file, if that can be done. -/
def FileTree.overwrite (t : FileTree) (p : Path) (bytes : ByteArray) (mode : Mode) : FileTree :=
  match (t.withDirs p).target p with
  | .ok l => (t.withDirs p).insert l (.file bytes mode)
  | .error _ => t.withDirs p

/-- A file tree and what clients know of it. -/
structure Clients (ι : Type) where
  tree : FileTree
  /-- The text that a client has read. -/
  seen : ι → Option Text := fun _ => none
  /-- The clients whose writes have succeeded, in that order. -/
  written : List ι := []

namespace Clients

variable {ι : Type} [DecidableEq ι] (r : ι → Request) (p : Path)

/-- What a write of a client comes to, and the tree after it. Nothing is written before the client
has read, nor where its edit has not changed anything. -/
def write? (w : Clients ι) (c : ι) : Option (Except Failure Unit × FileTree) :=
  match w.seen c with
  | none => none
  | some before =>
    let o := (r c).outcome before
    if o.changed then some (carryOut ((r c).path.replaceText o.text o.base (r c).mode) w.tree)
    else none

def step (w : Clients ι) : Event ι → Clients ι
  | .read c =>
    let read := carryOut ((r c).path.readText (r c).create) w.tree
    { w with tree := read.2, seen := Function.update w.seen c read.1.toOption }
  | .write c =>
    match w.write? r c with
    | none => w
    | some (.ok (), t) => { w with tree := t, written := w.written ++ [c] }
    | some (.error _, t) => { w with tree := t }
  | .overwrite bytes mode => { w with tree := w.tree.overwrite p bytes mode }
  | .remove => { w with tree := w.tree.remove p }

/-- What has become of a tree and the clients, of which none has read at first. -/
def run (t : FileTree) (events : List (Event ι)) : Clients ι :=
  events.foldl (step r p) { tree := t }

/-- The texts that clients meet at a path: the empty one, and those of the file at any time, also
when the directories of the path have been made. -/
def Met (t : FileTree) (events : List (Event ι)) (s : Text) : Prop :=
  s = [] ∨ ∃ past, past <+: events ∧ ((run r p t past).tree.withDirs p).text? p = some s

/-- The text after the edits of some clients, one after another. -/
def editsOf (s : Text) (cs : List ι) : Text := cs.foldl (fun s c => ((r c).outcome s).text) s

end Clients

/-! ## One step -/

theorem FileTree.keepsDirs_overwrite {t : FileTree} (ht : t.Sound) (p : Path) (bytes : ByteArray)
    (mode : Mode) : t.KeepsDirs (t.overwrite p bytes mode) := by
  have hdirs := t.keepsDirs_withDirs ht p
  unfold overwrite
  split
  · next l hl => exact hdirs.trans (keepsDirs_insert_of_target hdirs.sound p l hl bytes mode)
  · exact hdirs

namespace Clients

variable {ι : Type} {r : ι → Request} {p : Path} (hp : ∀ c, (r c).path = p) {w : Clients ι}

section
variable {c : ι} {result : Except Failure Unit} {t' : FileTree}

include hp in
theorem exists_of_write? (hw : w.write? r c = some (result, t')) : ∃ s, w.seen c = some s ∧
    carryOut (p.replaceText ((r c).outcome s).text (.ofText s) (r c).mode) w.tree =
      (result, t') := by
  unfold write? at hw
  rw [hp] at hw
  split at hw
  · cases hw
  · next s hs =>
    dsimp only at hw
    split at hw
    · exact ⟨s, hs, Option.some.inj hw⟩
    · cases hw

variable [DecidableEq ι]

theorem step_write_cases (w : Clients ι) (c : ι) :
    w.step r p (.write c) = w ∨
      (∃ t', w.write? r c = some (.ok (), t') ∧
        w.step r p (.write c) = { w with tree := t', written := w.written ++ [c] }) ∨
      ∃ failure t', w.write? r c = some (.error failure, t') ∧
        w.step r p (.write c) = { w with tree := t' } := by
  cases hw : w.write? r c with
  | none => exact Or.inl (by simp only [step, hw])
  | some write =>
    obtain ⟨result, t'⟩ := write
    cases result with
    | ok _ => exact Or.inr (Or.inl ⟨t', rfl, by simp only [step, hw]⟩)
    | error failure => exact Or.inr (Or.inr ⟨failure, t', rfl, by simp only [step, hw]⟩)

include hp

theorem step_read (w : Clients ι) (c : ι) : w.step r p (.read c) =
    { w with seen := Function.update w.seen c (w.tree.textAt p (r c).create).toOption } := by
  unfold step
  dsimp only
  rw [FileTree.carryOut_readText, hp]

/-- A client that has just read knows the text. -/
theorem text?_of_seen_step_read (s : Text) (hs : (w.step r p (.read c)).seen c = some s) :
    w.tree.text? p = some s := by
  rw [step_read hp] at hs
  dsimp only at hs
  rw [Function.update_self] at hs
  cases hread : w.tree.textAt p (r c).create with
  | error failure =>
    rw [hread] at hs
    cases hs
  | ok s' =>
    rw [hread] at hs
    obtain rfl := Option.some.inj hs
    exact w.tree.text?_of_textAt p _ s' hread

theorem keepsDirs_step (ht : w.tree.Sound) (e : Event ι) : w.tree.KeepsDirs (w.step r p e).tree := by
  have hsame : w.tree.KeepsDirs w.tree := ⟨fun _ hk => hk, ht⟩
  have hwrite : ∀ c result t', w.write? r c = some (result, t') → w.tree.KeepsDirs t' := by
    intro c result t' hw
    obtain ⟨s, -, hw⟩ := exists_of_write? hp hw
    have hkeeps := FileTree.keepsDirs_replaceText ht p ((r c).outcome s).text (.ofText s) (r c).mode
    rwa [hw] at hkeeps
  cases e with
  | read c => rwa [step_read hp]
  | write c =>
    rcases w.step_write_cases c with heq | ⟨t', hw, heq⟩ | ⟨failure, t', hw, heq⟩
    · rwa [heq]
    · rw [heq]
      exact hwrite c _ t' hw
    · rw [heq]
      exact hwrite c _ t' hw
  | overwrite bytes mode => exact FileTree.keepsDirs_overwrite ht p bytes mode
  | remove => exact FileTree.keepsDirs_remove ht p

end

/-! ## What the clients know -/

/-- Whether the tree is sound and all texts that clients have read are among some texts. A path
that is not settled has led nobody to a file. -/
structure Safe (w : Clients ι) (p : Path) (texts : Text → Prop) : Prop where
  sound : w.tree.Sound
  seen : ∀ c s, w.seen c = some s → texts s ∧ (w.tree.Settled p ∨ s = [])

variable {texts : Text → Prop} (hnil : texts [])
  (hnow : ∀ s, (w.tree.withDirs p).text? p = some s → texts s)

include hnil hnow in
theorem texts_of_text? (ht : w.tree.Sound) (s : Text) (hs : w.tree.text? p = some s) :
    texts s ∧ (w.tree.Settled p ∨ s = []) := by
  by_cases hsettled : w.tree.Settled p
  · exact ⟨hnow s (by rwa [FileTree.text?_withDirs ht hsettled]), Or.inl hsettled⟩
  · rw [FileTree.text?_of_not_settled ht hsettled] at hs
    obtain rfl := Option.some.inj hs
    exact ⟨hnil, Or.inr rfl⟩

include hp hnil hnow in
/-- What the clients know stays so with every step. -/
theorem Safe.step [DecidableEq ι] (h : w.Safe p texts) (e : Event ι) :
    (w.step r p e).Safe p texts := by
  have hkeeps := keepsDirs_step hp h.sound e
  refine ⟨hkeeps.sound, fun c s hs => ?_⟩
  have hseen : texts s ∧ (w.tree.Settled p ∨ s = []) := by
    cases e with
    | read c' =>
      by_cases hc : c = c'
      · subst hc
        exact texts_of_text? hnil hnow h.sound s (text?_of_seen_step_read hp s hs)
      · rw [step_read hp] at hs
        dsimp only at hs
        rw [Function.update_of_ne hc] at hs
        exact h.seen c s hs
    | write c' =>
      refine h.seen c s ?_
      rcases w.step_write_cases c' with heq | ⟨t', -, heq⟩ | ⟨failure, t', -, heq⟩ <;> rwa [heq] at hs
    | overwrite bytes mode => exact h.seen c s hs
    | remove => exact h.seen c s hs
  exact ⟨hseen.1, hseen.2.imp_left (hkeeps.settled h.sound p)⟩

/-! ## Requests -/

/-- A request that changes the text and keeps no copy is a read and a write of one client. -/
theorem tree_run_read_write [DecidableEq ι] (hp : ∀ c, (r c).path = p) (t : FileTree) (c : ι)
    (tag : Text) (hcheck : (r c).check = false) (hbackup : (r c).backup = false)
    (hchanged : ∀ s, t.textAt p (r c).create = .ok s → ((r c).outcome s).changed = true) :
    (carryOut ((r c).run tag) t).2 = (run r p t [.read c, .write c]).tree := by
  show _ = (Clients.step r p (Clients.step r p { tree := t } (.read c)) (.write c)).tree
  have hseen : (Clients.step r p { tree := t } (.read c)).seen c =
      (t.textAt p (r c).create).toOption := by
    rw [step_read hp]
    exact Function.update_self ..
  have htree : (Clients.step r p { tree := t } (.read c)).tree = t := by
    rw [step_read hp]
  generalize Clients.step r p { tree := t } (.read c) = w at hseen htree
  unfold Request.run
  rw [carryOut_bind, FileTree.carryOut_readText, hp]
  cases hread : t.textAt p (r c).create with
  | error failure =>
    have hw : w.write? r c = none := by
      unfold write?
      rw [hseen, hread]
      rfl
    simp only [step, hw, htree]
  | ok s =>
    have hkeep : carryOut ((r c).keepCopy tag) t = (.ok none, t) := by
      unfold Request.keepCopy
      rw [hbackup]
      rfl
    have hchanged := hchanged s hread
    unfold Request.outcome at hchanged
    have hw : w.write? r c = some (carryOut (p.replaceText ((r c).intent.apply (r c).style s).text
        ((r c).intent.apply (r c).style s).base (r c).mode) t) := by
      unfold write?
      rw [hseen, hread, hp, htree]
      exact if_pos hchanged
    dsimp only
    rw [hcheck, if_pos hchanged, if_neg Bool.false_ne_true, carryOut_bind, hkeep]
    dsimp only
    rw [carryOut_bind]
    simp only [step, hw]
    generalize carryOut (p.replaceText _ _ _) t = write
    obtain ⟨result, t'⟩ := write
    cases result <;> rfl

/-! ## Writes -/

section
variable (h : w.Safe p texts) {c : ι} {s : Text} {t' : FileTree}

include hp hnow h

/-- A write that succeeds finds the text that its client has read. -/
theorem Safe.text?_of_write
    (hdigest : ∀ s s', texts s → texts s' → Digest.ofText s = Digest.ofText s' → s = s')
    (hs : w.seen c = some s) (hw : w.write? r c = some (.ok (), t')) :
    w.tree.text? p = some s ∧ t'.text? p = some ((r c).outcome s).text := by
  obtain ⟨s', hs', hwrite⟩ := exists_of_write? hp hw
  obtain rfl := Option.some.inj (hs.symm.trans hs')
  obtain ⟨htext, now, hfound, hbase⟩ := FileTree.text?_of_replaceText h.sound hwrite
  obtain ⟨hmet, hsettled⟩ := h.seen c s hs
  obtain rfl := hdigest now s (hnow now hfound) hmet hbase
  refine ⟨?_, htext⟩
  by_cases hset : w.tree.Settled p
  · rwa [← FileTree.text?_withDirs h.sound hset]
  · rw [FileTree.text?_of_not_settled h.sound hset, hsettled.resolve_left hset]

omit hnow in
/-- A write that fails does so without any effect on the file, unless that comes to light with the
directories of its path. -/
theorem Safe.file?_of_write_eq_error {failure : Failure} (hs : w.seen c = some s)
    (hw : w.write? r c = some (.error failure, t'))
    (hsettled : w.tree.Settled p ∨ w.tree.text? p ≠ some s) : t'.file? p = w.tree.file? p := by
  obtain ⟨s', -, hwrite⟩ := exists_of_write? hp hw
  obtain ⟨rfl, -⟩ := FileTree.of_replaceText_eq_error h.sound hwrite
  have hsettled : w.tree.Settled p := by
    by_contra hnot
    refine hsettled.elim hnot fun hne => hne ?_
    rw [FileTree.text?_of_not_settled h.sound hnot, (h.seen c s hs).2.resolve_left hnot]
  exact (FileTree.grows_withDirs h.sound p).file?_eq h.sound p hsettled

omit hnow in
/-- A conflict means that the text at a settled path is not the one that was read. -/
theorem Safe.text?_ne_of_conflict (hsettled : w.tree.Settled p) (hs : w.seen c = some s)
    {q : Path} {expected found : Digest}
    (hw : w.write? r c = some (.error (.conflict q expected found), t')) :
    w.tree.text? p ≠ some s := by
  obtain ⟨s', hs', hwrite⟩ := exists_of_write? hp hw
  obtain rfl := Option.some.inj (hs.symm.trans hs')
  obtain ⟨now, hfound, hbase⟩ := FileTree.exists_of_conflict h.sound hwrite
  rw [FileTree.text?_withDirs h.sound hsettled] at hfound
  rw [hfound]
  rintro heq
  exact hbase (congrArg Digest.ofText (Option.some.inj heq))

end

/-- A step of a client writes its edit of the text, or leaves the text as it is. -/
theorem Safe.text?_step [DecidableEq ι] (h : w.Safe p texts)
    (hp : ∀ c, (r c).path = p)
    (hdigest : ∀ s s', texts s → texts s' → Digest.ofText s = Digest.ofText s' → s = s')
    (hnow : ∀ s, (w.tree.withDirs p).text? p = some s → texts s)
    (hsettled : w.tree.Settled p) (e : Event ι) (he : ¬ e.IsForeign) :
    ∃ cs, (w.step r p e).written = w.written ++ cs ∧
      (w.step r p e).tree.text? p = (w.tree.text? p).map (editsOf r · cs) := by
  have hsame : (w.tree.text? p).map (editsOf r · []) = w.tree.text? p := Option.map_id'
  cases e with
  | read c =>
    refine ⟨[], ?_, ?_⟩
    · rw [step_read hp, List.append_nil]
    · rw [step_read hp, hsame]
  | write c =>
    rcases w.step_write_cases c with heq | ⟨t', hw, heq⟩ | ⟨failure, t', hw, heq⟩
    · refine ⟨[], ?_, ?_⟩
      · rw [heq, List.append_nil]
      · rw [heq, hsame]
    · obtain ⟨s, hs, -⟩ := exists_of_write? hp hw
      obtain ⟨hfound, htext⟩ := h.text?_of_write hp hnow hdigest hs hw
      refine ⟨[c], by rw [heq], ?_⟩
      rw [heq, hfound]
      exact htext
    · obtain ⟨s, hs, -⟩ := exists_of_write? hp hw
      refine ⟨[], by rw [heq, List.append_nil], ?_⟩
      rw [heq, hsame]
      unfold FileTree.text?
      rw [h.file?_of_write_eq_error hp hs hw (Or.inl hsettled)]
  | overwrite bytes mode => exact absurd trivial he
  | remove => exact absurd trivial he

/-! ## Runs -/

variable [DecidableEq ι]

section
variable {t : FileTree} {events : List (Event ι)}

theorem run_append (past now : List (Event ι)) :
    run r p t (past ++ now) = now.foldl (step r p) (run r p t past) :=
  List.foldl_append

theorem run_concat (past : List (Event ι)) (e : Event ι) :
    run r p t (past ++ [e]) = (run r p t past).step r p e :=
  run_append past [e]

theorem met_of_text?_withDirs {past : List (Event ι)} (hpast : past <+: events) (s : Text)
    (hs : ((run r p t past).tree.withDirs p).text? p = some s) : Met r p t events s :=
  Or.inr ⟨past, hpast, hs⟩

include hp

theorem safe_run (ht : t.Sound) (past : List (Event ι)) (hpast : past <+: events) :
    (run r p t past).Safe p (Met r p t events) := by
  induction past using List.reverseRecOn with
  | nil => exact ⟨ht, fun c s hs => nomatch hs⟩
  | append_singleton past e ih =>
    have hpast' := (List.prefix_append past [e]).trans hpast
    rw [run_concat]
    exact (ih hpast').step hp (Or.inl rfl) (met_of_text?_withDirs hpast') e

theorem settled_run_append (ht : t.Sound) (past now : List (Event ι))
    (hsettled : (run r p t past).tree.Settled p) : (run r p t (past ++ now)).tree.Settled p := by
  induction now using List.reverseRecOn with
  | nil => rwa [List.append_nil]
  | append_singleton now e ih =>
    have hsound := (safe_run hp ht (past ++ now) (List.prefix_refl _)).sound
    rw [← List.append_assoc, run_concat]
    exact (keepsDirs_step hp hsound e).settled hsound p ih

/-- While nobody else does anything, the text is what the edits that are written make of it. -/
theorem text?_run_append (ht : t.Sound)
    (hdigest : ∀ s s', Met r p t events s → Met r p t events s' →
      Digest.ofText s = Digest.ofText s' → s = s')
    (past now : List (Event ι)) (hsettled : (run r p t past).tree.Settled p)
    (hpart : past ++ now <+: events) (hnow : ∀ e ∈ now, ¬ e.IsForeign) :
    ∃ cs, (run r p t (past ++ now)).written = (run r p t past).written ++ cs ∧
      (run r p t (past ++ now)).tree.text? p =
        ((run r p t past).tree.text? p).map (editsOf r · cs) := by
  induction now using List.reverseRecOn with
  | nil =>
    refine ⟨[], ?_, ?_⟩
    · rw [List.append_nil, List.append_nil]
    · rw [List.append_nil]
      exact Option.map_id'.symm
  | append_singleton now e ih =>
    rw [← List.append_assoc] at hpart
    have hpast := (List.prefix_append (past ++ now) [e]).trans hpart
    obtain ⟨cs, hwritten, htext⟩ := ih hpast fun e he => hnow e (List.mem_append_left _ he)
    obtain ⟨cs', hwritten', htext'⟩ := (safe_run hp ht (past ++ now) hpast).text?_step hp hdigest
      (met_of_text?_withDirs hpast) (settled_run_append hp ht past now hsettled) e
      (hnow e List.mem_concat_self)
    refine ⟨cs ++ cs', ?_, ?_⟩
    · rw [← List.append_assoc, run_concat, hwritten', hwritten, List.append_assoc]
    · rw [← List.append_assoc, run_concat, htext', htext, Option.map_map]
      simp only [Function.comp_def, editsOf, List.foldl_append]

end

omit hp in
/-- No update is lost, if no two texts that are met have one digest. A write that succeeds finds the
text that its client has read, and where another text is found the file stays as it is. From when the
path is settled on, the text between steps of somebody else is what the edits that are written make
of it, and a client that writes as soon as it has read meets no conflict. -/
theorem no_update_lost (r : ι → Request) (p : Path) (hp : ∀ c, (r c).path = p) (t : FileTree)
    (ht : t.Sound) (events : List (Event ι))
    (hdigest : ∀ s s', Met r p t events s → Met r p t events s' →
      Digest.ofText s = Digest.ofText s' → s = s') :
    (∀ past c s result t', past ++ [.write c] <+: events → (run r p t past).seen c = some s →
        (run r p t past).write? r c = some (result, t') →
      (result = .ok () → (run r p t past).tree.text? p = some s ∧
        t'.text? p = some ((r c).outcome s).text) ∧
      ((run r p t past).tree.text? p ≠ some s → (∃ failure, result = .error failure) ∧
        t'.file? p = (run r p t past).tree.file? p)) ∧
    (∀ past now, past ++ now <+: events → (∀ e ∈ now, ¬ e.IsForeign) →
        (run r p t past).tree.Settled p →
      ∃ cs, (run r p t (past ++ now)).written = (run r p t past).written ++ cs ∧
        (run r p t (past ++ now)).tree.text? p =
          ((run r p t past).tree.text? p).map (editsOf r · cs)) ∧
    ∀ past c failure t', (run r p t past).tree.Settled p →
        (run r p t (past ++ [.read c])).write? r c = some (.error failure, t') →
      ∀ q expected found, failure ≠ .conflict q expected found := by
  refine ⟨fun past c s result t' hpart hs hw => ?_, fun past now hpart hnow hsettled =>
    text?_run_append hp ht hdigest past now hsettled hpart hnow, ?_⟩
  · have hpast := (List.prefix_append past [.write c]).trans hpart
    have hsafe := safe_run hp ht past hpast
    cases result with
    | ok _ =>
      have hfinds := hsafe.text?_of_write hp (met_of_text?_withDirs hpast) hdigest hs hw
      exact ⟨fun _ => hfinds, fun hne => absurd hfinds.1 hne⟩
    | error failure =>
      refine ⟨fun hok => (nomatch hok), fun hne => ⟨⟨failure, rfl⟩, ?_⟩⟩
      exact hsafe.file?_of_write_eq_error hp hs hw (Or.inr hne)
  · rintro past c failure t' hsettled hw q expected found rfl
    have hsafe := safe_run hp ht (past ++ [.read c]) (List.prefix_refl _)
    have hsettled' := settled_run_append hp ht past [.read c] hsettled
    obtain ⟨s, hs, -⟩ := exists_of_write? hp hw
    refine hsafe.text?_ne_of_conflict hp hsettled' hs hw ?_
    rw [run_concat] at hs ⊢
    have htext := text?_of_seen_step_read hp s hs
    rwa [step_read hp]

/-- The texts that are met are those of the file after each part of a run, and the empty one. -/
theorem digest_injective_of_inits {ι : Type} [DecidableEq ι] (r : ι → Request) (p : Path)
    (t : FileTree) (events : List (Event ι)) (texts : List Text) (hnil : [] ∈ texts)
    (htexts : ∀ past ∈ events.inits, ((run r p t past).tree.withDirs p).text? p ∈ texts.map some)
    (hnodup : (texts.map Digest.ofText).Nodup) :
    ∀ s s', Met r p t events s → Met r p t events s' →
      Digest.ofText s = Digest.ofText s' → s = s' := by
  have hmem : ∀ s, Met r p t events s → s ∈ texts := by
    rintro s (rfl | ⟨past, hpast, hs⟩)
    · exact hnil
    · have hin := htexts past ((List.mem_inits past events).2 hpast)
      rw [hs] at hin
      exact (List.mem_map_of_injective (Option.some_injective _)).1 hin
  exact fun s s' hs hs' heq => List.inj_on_of_nodup_map hnodup (hmem s hs) (hmem s' hs') heq

/-- Two clients that ask for a stanza each. -/
def two (c : Bool) : Request := .addStanza ⟨['f']⟩ (if c then ['a'] else ['b'])

/-- Of two clients that have found no file the second one does not write over the first one. -/
theorem no_update_lost_of_two :
    (run two ⟨['f']⟩ {} [.read true, .read false, .write true]).tree.text? ⟨['f']⟩ ≠ some [] ∧
      ∃ failure t',
        (run two ⟨['f']⟩ {} [.read true, .read false, .write true]).write? two false =
          some (.error failure, t') ∧
        t'.file? ⟨['f']⟩ =
          (run two ⟨['f']⟩ {} [.read true, .read false, .write true]).tree.file? ⟨['f']⟩ := by
  have hdigest := digest_injective_of_inits two ⟨['f']⟩ {}
    [.read true, .read false, .write true, .write false] [[], ['\n', 'a', ':', '\n']]
    List.mem_cons_self (by decide +kernel) (by decide +kernel)
  have hguard := (no_update_lost two ⟨['f']⟩ (fun _ => rfl) {} FileTree.sound_empty _ hdigest).1
    [.read true, .read false, .write true] false []
  generalize hw : run two ⟨['f']⟩ {} [.read true, .read false, .write true] = w at hguard ⊢
  have hne : w.tree.text? ⟨['f']⟩ ≠ some [] := by
    rw [← hw]
    decide +kernel
  have hseen : w.seen false = some [] := by
    rw [← hw]
    decide +kernel
  have hwrites : (w.write? two false).isSome := by
    rw [← hw]
    decide +kernel
  obtain ⟨⟨result, t'⟩, hwrite⟩ := Option.isSome_iff_exists.1 hwrites
  obtain ⟨⟨failure, rfl⟩, hfile⟩ := (hguard result t' (List.prefix_refl _) hseen hwrite).2 hne
  exact ⟨hne, failure, t', hwrite, hfile⟩

/-- Without any step of somebody else a path that is not settled may lead to a text that nobody has
written. -/
theorem not_forall_text?_run_eq :
    ¬ ∀ (r : Unit → Request) (p : Path) (t : FileTree) (events : List (Event Unit)),
      (∀ c, (r c).path = p) → t.Sound →
      (∀ s s', Met r p t events s → Met r p t events s' →
        Digest.ofText s = Digest.ofText s' → s = s') →
      (∀ e ∈ events, ¬ e.IsForeign) →
      (run r p t events).tree.text? p =
        (t.text? p).map (editsOf r · (run r p t events).written) := by
  intro h
  have hsound : (FileTree.insert {} [['f']] (.file (utf8 ['z', '\n']) 0o644)).Sound := by
    refine FileTree.sound_empty.insert [['f']] _ (FileTree.isDir_nil _) (List.cons_ne_nil _ _) ?_
    exact FileTree.not_isDir_of_free _ [['f']] rfl
  have heq := h (fun _ => .addStanza ⟨"new/../f".toList⟩ ['a']) ⟨"new/../f".toList⟩ _
    [.read (), .write ()] (fun _ => rfl) hsound
    (digest_injective_of_inits _ _ _ _ [[], ['z', '\n']] List.mem_cons_self (by decide +kernel)
      (by decide +kernel))
    (by simp [Event.IsForeign])
  exact absurd heq (by decide +kernel)

end Clients

end Stanzas
