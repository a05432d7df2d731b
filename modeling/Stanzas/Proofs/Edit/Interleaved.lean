import Mathlib.Data.List.Basic
import Stanzas.Proofs.Edit
import Stanzas.Proofs.Plan.Several
import Stanzas.Proofs.Scope.Range

/-!
# Which lines of a text an edit leaves

The lines of an edited text are those of the text that was read, in their order and with every
character, less some that the intent is about, and with new lines between them
(`interleaved_text_apply`). `Intent.MayLose` and `Intent.MayWrite` say which lines may go and what
may be new; both are told from headers and kinds of lines, without the numbers that a plan works
with.
-/

namespace Stanzas

/-! ## Lines between lines -/

/-- The second list is made from the first one, whose first line has the given number: lines are kept
as they are, left out if they may be `lost`, and `fresh` ones are written anywhere. -/
inductive Interleaved (lost : Nat → Prop) (fresh : Text → Prop) :
    Nat → List Text → List Text → Prop where
  | nil (n : Nat) : Interleaved lost fresh n [] []
  | keep {n : Nat} {ls ms : List Text} (l : Text) (h : Interleaved lost fresh (n + 1) ls ms) :
    Interleaved lost fresh n (l :: ls) (l :: ms)
  | lose {n : Nat} {ls ms : List Text} (l : Text) (hl : lost n)
    (h : Interleaved lost fresh (n + 1) ls ms) : Interleaved lost fresh n (l :: ls) ms
  | write {n : Nat} {ls ms : List Text} (m : Text) (hm : fresh m)
    (h : Interleaved lost fresh n ls ms) : Interleaved lost fresh n ls (m :: ms)

namespace Interleaved

variable {lost lost' : Nat → Prop} {fresh fresh' : Text → Prop} {n : Nat} {ls ms : List Text}

theorem mono (h : Interleaved lost fresh n ls ms) (hlost : ∀ n, lost n → lost' n)
    (hfresh : ∀ m, fresh m → fresh' m) : Interleaved lost' fresh' n ls ms := by
  induction h with
  | nil n => exact .nil n
  | keep l _ ih => exact .keep l ih
  | lose l hl _ ih => exact .lose l (hlost _ hl) ih
  | write m hm _ ih => exact .write m (hfresh _ hm) ih

theorem append (h : Interleaved lost fresh n ls ms) (new : List Text) (hnew : ∀ m ∈ new, fresh m) :
    Interleaved lost fresh n ls (new ++ ms) := by
  induction new with
  | nil => exact h
  | cons m new ih =>
    exact .write m (hnew m List.mem_cons_self) (ih fun k hk => hnew k (List.mem_cons_of_mem _ hk))

end Interleaved

/-! ## Patches -/

theorem Document.exists_renderLines_append (style : Style) (inStanza : Bool) (ls ms : List Line) :
    ∃ b, renderLines style inStanza (ls ++ ms) =
      renderLines style inStanza ls ++ renderLines style b ms := by
  induction ls generalizing inStanza with
  | nil => exact ⟨inStanza, rfl⟩
  | cons l ls ih =>
    obtain ⟨b, hb⟩ := ih (inStanza || l.stanzaName?.isSome)
    refine ⟨b, ?_⟩
    simp only [List.cons_append, renderLines, hb]

namespace Patch

variable (p : Patch) (style : Style)

/-- Whether a text is that of a line that the patch inserts. -/
def Writes (m : Text) : Prop := ∃ n, ∃ l ∈ p.insertedAt n, ∃ b, m = l.render style b

theorem writes_of_mem_renderLines (n : Nat) (inStanza : Bool) (m : Text)
    (hm : m ∈ Document.renderLines style inStanza (p.insertedAt n)) : p.Writes style m := by
  obtain ⟨l, hl, b, rfl⟩ := Document.exists_of_mem_renderLines style inStanza _ m hm
  exact ⟨n, l, hl, b, rfl⟩

/-- A patch of lines of a file loses what it deletes and writes what it inserts. -/
theorem interleaved_splice (n : Nat) (inStanza : Bool) (ls : List Text) :
    Interleaved p.Deletes (p.Writes style) n ls
      (Document.renderLines style inStanza (p.splice n (ls.map .kept))) := by
  induction ls generalizing n inStanza with
  | nil =>
    have hnil : Interleaved p.Deletes (p.Writes style) n [] [] := .nil n
    have hnew := hnil.append _ (p.writes_of_mem_renderLines style n inStanza)
    rwa [List.append_nil] at hnew
  | cons l ls ih =>
    rw [List.map_cons, splice, List.append_assoc]
    obtain ⟨b, hb⟩ := Document.exists_renderLines_append style inStanza (p.insertedAt n)
      ((if p.Deletes n then [] else [.kept l]) ++ p.splice (n + 1) (ls.map .kept))
    rw [hb]
    apply Interleaved.append _ _ (p.writes_of_mem_renderLines style n inStanza)
    by_cases hdel : p.Deletes n
    · rw [if_pos hdel, List.nil_append]
      exact .lose l hdel (ih (n + 1) b)
    · rw [if_neg hdel, List.singleton_append]
      exact .keep l (ih (n + 1) _)

end Patch

/-! ## Intents -/

namespace Intent

variable (i : Intent) (d : Document)

/-- The lines that an intent may take away: those of its attribute in its scope, or of all stanzas
that shall be gone, or all attributes of the top level. -/
def MayLose (n : Nat) : Prop :=
  match i.attr, i.presence, i.scope with
  | some a, _, x => d.InFirst x n ∧ ∃ l ∈ d.lines[n]?, ∃ v, l.kind = .attribute a v
  | none, .present, _ => False
  | none, .absent, .stanza name => d.InSome name n
  | none, .absent, .top => d.InFirst .top n ∧ ∃ l ∈ d.lines[n]?, ∃ a v, l.kind = .attribute a v

/-- The lines that an intent may write: a desired value of its attribute, and for a stanza that is
missing its header and a blank line. -/
def MayWrite (l : Line) : Prop :=
  i.presence = .present ∧
    match l with
    | .kept _ => False
    | .blank => i.scope ∉ d.scopes
    | .header name => i.scope = .stanza name ∧ i.scope ∉ d.scopes
    | .attribute a v => i.attr = some a ∧ v ∈ i.desired

theorem inFirst_of_mem_places (s : Span) (x : Scope) (hs : d.span? x = some s) (q : Place)
    (hq : q ∈ s.places) :
    d.InFirst x q.line ∧ ∃ l ∈ d.lines[q.line]?, l.kind = .attribute q.name q.value := by
  have hlt := s.line_lt_stop q hq
  obtain ⟨hle, l, hl, hk⟩ := (s.mem_places_iff q).1 hq
  obtain ⟨pre, post, hd, hstart, -⟩ := d.sections_of_span? x s hs
  refine ⟨d.inFirst_of_span? x s hs _ hle hlt, l, ?_, hk⟩
  rwa [Document.getElem?_of_span d s pre post hd hstart _ hle hlt]

theorem mayLose_of_removes (n : Nat) (h : i.Removes d n) : i.MayLose d n := by
  unfold Removes at h
  unfold MayLose
  cases ha : i.attr with
  | some a =>
    simp only [ha] at h ⊢
    obtain ⟨s, hs, q, hq, rfl, -⟩ := h
    obtain ⟨hplace, rfl⟩ := (s.mem_occurrences_iff a q).1 hq
    obtain ⟨hin, l, hl, hk⟩ := inFirst_of_mem_places d s i.scope hs q hplace
    exact ⟨hin, l, hl, q.value, hk⟩
  | none =>
    cases hp : i.presence with
    | present => simp only [ha, hp] at h
    | absent =>
      cases hx : i.scope with
      | top =>
        simp only [ha, hp, hx] at h ⊢
        obtain ⟨s, hs, q, hq, rfl⟩ := h
        obtain ⟨hin, l, hl, hk⟩ := inFirst_of_mem_places d s .top hs q hq
        exact ⟨hin, l, hl, q.name, q.value, hk⟩
      | stanza name =>
        simp only [ha, hp, hx] at h ⊢
        obtain ⟨s, hs, hle, hlt⟩ := h
        exact d.inSome_of_mem_spansOf name s hs n hle hlt

theorem mayWrite_of_mem_attrLines (l : Line) (hl : l ∈ i.attrLines d) : i.MayWrite d l := by
  unfold attrLines at hl
  cases ha : i.attr with
  | none =>
    rw [ha] at hl
    cases hl
  | some a =>
    rw [ha] at hl
    obtain ⟨v, hv, rfl⟩ := List.mem_map.1 hl
    unfold missing at hv
    cases hp : i.presence with
    | absent =>
      rw [hp] at hv
      cases hv
    | present =>
      rw [hp] at hv
      exact ⟨hp, ha, (List.mem_filter.1 hv).1⟩

theorem mayWrite_of_mem_newLines (l : Line) (hl : l ∈ i.newLines d) : i.MayWrite d l := by
  have hattr := i.mayWrite_of_mem_attrLines d l
  unfold newLines at hl
  cases hs : d.span? i.scope with
  | some s =>
    rw [hs] at hl
    exact hattr hl
  | none =>
    have hmissing := (d.span?_eq_none_iff _).1 hs
    cases hp : i.presence with
    | absent =>
      rw [hs, hp] at hl
      cases hl
    | present =>
      cases hx : i.scope with
      | top =>
        rw [hs, hp, hx] at hl
        cases hl
      | stanza name =>
        rw [hs, hp, hx] at hl
        rcases List.mem_append.1 hl with hl | hl
        · unfold gap at hl
          split at hl
          · cases hl
          · rw [List.mem_singleton.1 hl]
            exact ⟨hp, hmissing⟩
        · rcases List.mem_cons.1 hl with rfl | hl
          · exact ⟨hp, hx, hmissing⟩
          · exact hattr hl

/-- The lines of a document as an edit leaves them. -/
theorem interleaved_edit (style : Style) (t : Text) :
    Interleaved (i.MayLose (.read t))
      (fun m => ∃ l, i.MayWrite (.read t) l ∧ ∃ b, m = l.render style b) 0
      (cutLines (dropMark t)).1
      (Document.renderLines style false (i.edit (.read t)).lines) := by
  have hsplice := (i.plan (.read t)).1.interleaved_splice style 0 false (cutLines (dropMark t)).1
  have hlines : (i.edit (.read t)).lines =
      (i.plan (.read t)).1.splice 0 ((cutLines (dropMark t)).1.map .kept) :=
    (i.plan (.read t)).1.lines_apply (.read t)
  rw [hlines]
  apply hsplice.mono
  · intro n hn
    exact i.mayLose_of_removes _ n ((i.deletes_plan _ n).1 hn)
  · rintro m ⟨n, l, hl, hm⟩
    rw [i.insertedAt_plan] at hl
    split at hl
    · exact ⟨l, i.mayWrite_of_mem_newLines _ l hl, hm⟩
    · cases hl

/-! ## Texts -/

/-- The lines of the edited text are kept lines with new ones between them, and a line that is gone
is one that the intent may take: if it sets an attribute or asks for a scope, no line of another
scope, no header, comment or blank line and no other attribute. If no line is left, one newline is. -/
theorem interleaved_text_apply (style : Style) (t : Text) (w : Draft) (hw : w.check = .ok i) :
    (∃ ms, Interleaved (i.MayLose (.read t))
        (fun m => ∃ l, i.MayWrite (.read t) l ∧ ∃ b, m = l.render style b) 0
        (cutLines (dropMark t)).1 ms ∧
      ((cutLines (i.apply style t).text).1 = ms ∨ ms = [] ∧ (i.apply style t).text = ['\n'])) ∧
    (i.KeepsScopes → ∀ n, ∀ l ∈ (Document.read t).lines[n]?,
      (¬ (Document.read t).InFirst i.scope n ∨ ∀ a v, i.attr = some a → l.kind ≠ .attribute a v) →
        ¬ i.MayLose (.read t) n) := by
  constructor
  · refine ⟨_, i.interleaved_edit style t, ?_⟩
    rw [text_apply]
    by_cases hne : (i.edit (.read t)).lines = []
    · unfold Document.render
      rw [hne]
      cases (i.edit (.read t)).ended with
      | true => exact Or.inr ⟨rfl, rfl⟩
      | false => exact Or.inl rfl
    · have hfits := i.fits_edit (w.valid_of_check i hw) _ (Document.fits_read t)
      have hcut := cutLines_joinLines _ _ (Document.areLines_renderLines style _ hfits hne)
      unfold Document.render
      rw [hcut]
      exact Or.inl rfl
  · intro hk n l hl hout hlose
    unfold MayLose at hlose
    cases ha : i.attr with
    | none =>
      have hp : i.presence = .present := hk.resolve_left fun h => h ha
      simp only [ha, hp] at hlose
    | some a =>
      simp only [ha] at hlose
      obtain ⟨hin, m, hm, v, hv⟩ := hlose
      rw [hl] at hm
      obtain rfl := Option.some.inj hm
      rcases hout with hout | hout
      · exact hout hin
      · exact hout a v ha hv

/-- The carriage return of a header stays, and so do the blanks of a value. -/
theorem interleaved_text_apply_exclusive :
    let i : Intent := ⟨.stanza ['s'], some ['a'], [['2']], .present, true, false⟩
    let t : Text := ['s', ':', '\r', '\n', 'a', '=', '1', '\n', ' ', 'b', '=', '1', ' ']
    Draft.check { scope := .stanza ['s'], attr := some ['a'], values := [['2']] } = .ok i ∧
      (i.apply .spaced t).text =
        ['s', ':', '\r', '\n', ' ', ' ', 'a', ' ', '=', ' ', '2', '\n', ' ', 'b', '=', '1', ' '] ∧
      ∃ ms, Interleaved (i.MayLose (.read t))
          (fun m => ∃ l, i.MayWrite (.read t) l ∧ ∃ b, m = l.render .spaced b) 0
          [['s', ':', '\r'], ['a', '=', '1'], [' ', 'b', '=', '1', ' ']] ms ∧
        ((cutLines (i.apply .spaced t).text).1 = ms ∨ ms = [] ∧ (i.apply .spaced t).text = ['\n']) := by
  intro i t
  have hlines : (cutLines (dropMark t)).1 =
      [['s', ':', '\r'], ['a', '=', '1'], [' ', 'b', '=', '1', ' ']] := by decide
  have h := (interleaved_text_apply i .spaced t
    { scope := .stanza ['s'], attr := some ['a'], values := [['2']] } rfl).1
  rw [hlines] at h
  exact ⟨rfl, by decide, h⟩

end Intent

end Stanzas
