import Mathlib.Data.List.Basic
import Stanzas.Proofs.Edit
import Stanzas.Proofs.Intent.Fault
import Stanzas.Proofs.Line.Grammar
import Stanzas.Proofs.Plan.Remove

/-!
# Names of stanzas

What a draft may call a stanza and what the header of a stanza may hold are told by two predicates,
one for names and one for whole lines. They agree:

    StanzaName n ↔ Kind.ofText (n ++ [':']) = .header n              for n ≠ []     (stanzaName_iff)

So whatever stanza a file has, a draft can name it and an intent can find it and take it away
(`Addressable`).
-/

namespace Stanzas

/-! ## Names and headers -/

theorem stanzaName_iff (n : Text) (hne : n ≠ []) :
    StanzaName n ↔ Kind.ofText (n ++ [':']) = .header n := by
  rw [Kind.ofText_eq_iff]
  constructor
  · rintro ⟨hc, hw⟩
    exact ⟨⟨⟨hne, hw⟩, hc⟩, [], by simp, rfl⟩
  · rintro ⟨⟨hw, hc⟩, -⟩
    exact ⟨hc, hw.2⟩

/-- A draft is refused for its stanza just if no header can name that stanza. -/
theorem Draft.check_eq_badStanza_iff (w : Draft) (s : Text) (hw : w.scope = .stanza s)
    (hne : trim s ≠ []) (x : Text) : w.check = .error (.badStanza x) ↔
      x = trim s ∧ Kind.ofText (trim s ++ [':']) ≠ .header (trim s) := by
  rw [w.check_eq_error_iff, Ne, ← stanzaName_iff _ hne]
  constructor
  · rintro ⟨hf, -⟩
    cases hf with
    | badStanza name hscope _ hbad =>
      rw [hw] at hscope
      obtain rfl := Scope.stanza.inj hscope
      exact ⟨rfl, hbad⟩
  · rintro ⟨rfl, hbad⟩
    exact ⟨.badStanza s hw hne hbad, fun f _ => Nat.zero_le _⟩

/-! ## Stanzas of a file -/

/-- How a stanza of a text can be named, found and taken away. -/
structure Addressable (t name : Text) : Prop where
  /-- Whatever else is wrong with a draft that names the stanza, its name is not. -/
  check_ne : ∀ w : Draft, w.scope = .stanza name → ∀ x, w.check ≠ .error (.badStanza x)
  /-- The name stays as it is. -/
  scope_of_check : ∀ (w : Draft) (i : Intent), w.scope = .stanza name → w.check = .ok i →
    i.scope = .stanza name
  /-- The scope resolves to the first stanza of that name. -/
  exists_span? : ∃ s, (Document.read t).span? (.stanza name) = some s ∧ s.scope = .stanza name ∧
    (Document.read t).Opens s.start name ∧ ∀ n < s.start, ¬ (Document.read t).Opens n name
  /-- That it shall be gone can be said. -/
  check_absent : Draft.check { scope := .stanza name, presence := .absent } =
    .ok ⟨.stanza name, none, [], .absent, true, false⟩
  /-- It goes with all its lines, and no other stanza does. -/
  removes : ∀ i : Intent, i.scope = .stanza name → i.attr = none → i.presence = .absent →
    i.RemovesStanzas (.read t) name ∧ name ∉ (i.edit (.read t)).stanzaNames
  /-- No reader of the edited text finds it. -/
  notMem_read : ∀ (w : Draft) (i : Intent) (style : Style), w.check = .ok i →
    i.scope = .stanza name → i.attr = none → i.presence = .absent →
    (i.apply style t).reason = .stanzaRemoved ∧
      ((i.apply style t).text.head? ≠ some byteOrderMark →
        name ∉ (Document.read (i.apply style t).text).stanzaNames)

namespace Document

theorem word_of_mem_stanzaNames (t name : Text) (h : name ∈ (read t).stanzaNames) :
    Word name ∧ name.head? ≠ some '#' := by
  obtain ⟨l, hl, hname⟩ := List.mem_filterMap.1 h
  obtain ⟨raw, -, rfl⟩ := List.mem_map.1 hl
  unfold Line.stanzaName? at hname
  split at hname
  · next n hk =>
    cases hname
    exact ((Kind.ofText_eq_iff raw _).1 hk).1
  · cases hname

/-- A name that some header has resolves to the first stanza with such a header. -/
theorem exists_span?_of_mem (d : Document) (name : Text) (h : name ∈ d.stanzaNames) :
    ∃ s, d.span? (.stanza name) = some s ∧ s.scope = .stanza name ∧ d.Opens s.start name ∧
      ∀ n < s.start, ¬ d.Opens n name := by
  obtain ⟨s, hs⟩ := Option.isSome_iff_exists.1 ((d.mem_stanzaNames_iff name).1 h)
  obtain ⟨hmem, hx, -⟩ := d.span?_first _ s hs
  have hstart := d.covers_start s hmem (by rw [hx]; exact Scope.noConfusion)
  have hopens := (d.inStanzaAt_of_covers s hmem name hx s.start hstart).1
  obtain ⟨m, -, hfirst, hin⟩ := d.inFirst_of_span? _ s hs s.start hstart.1 hstart.2
  have hm : m = s.start := by
    rcases Nat.eq_or_lt_of_le hin.1 with heq | hlt
    · exact heq
    · exact absurd hopens (hin.2.2 s.start hlt (Nat.le_refl _) name)
  exact ⟨s, hs, hx, hopens, hm ▸ hfirst⟩

end Document

theorem addressable_of_mem (t name : Text) (h : name ∈ (Document.read t).stanzaNames) :
    Addressable t name := by
  obtain ⟨hword, hc⟩ := Document.word_of_mem_stanzaNames t name h
  have hname : StanzaName name := ⟨hc, hword.2⟩
  have hscope : Draft.checkScope (.stanza name) = .ok (.stanza name) := by
    unfold Draft.checkScope
    simp only [hword.trim_eq, if_neg hword.1, if_pos hname]
  constructor
  case check_ne =>
    intro w hw x hx
    obtain ⟨hfault, -⟩ := (w.check_eq_error_iff _).1 hx
    have hbad := (w.checkScope_eq_error_iff _).2 ⟨hfault, rfl⟩
    rw [hw, hscope] at hbad
    cases hbad
  case scope_of_check =>
    intro w i hw hi
    have hi' := (w.check_eq_ok i hi).1
    rw [hw, hscope] at hi'
    exact (Except.ok.inj hi').symm
  case exists_span? => exact Document.exists_span?_of_mem _ name h
  case check_absent => exact Draft.check_of_parts _ _ none [] hscope rfl rfl
  case removes =>
    intro i hx ha hp
    have hremoves := i.removesStanzas (.read t) ha hp name hx
    refine ⟨hremoves, ?_⟩
    rw [hremoves.stanzaNames_edit]
    simp
  case notMem_read =>
    intro w i style hw hx ha hp
    have hremoves := i.removesStanzas (.read t) ha hp name hx
    refine ⟨(hremoves.plan_of_mem h).2, fun hm => ?_⟩
    have hscopes := i.scopes_read_text_apply style t (w.valid_of_check i hw) hm
    rw [(i.edit (.read t)).scopes_eq, ← Document.stanzaNames_eq_iff] at hscopes
    rw [hscopes, hremoves.stanzaNames_edit]
    simp

/-- A stanza that a draft may name is one that a file can hold, and the other way round. -/
theorem stanzaNames_addressable :
    (∀ (w : Draft) (s : Text), w.scope = .stanza s → trim s ≠ [] → ∀ x,
      w.check = .error (.badStanza x) ↔
        x = trim s ∧ Kind.ofText (trim s ++ [':']) ≠ .header (trim s)) ∧
    ∀ t name, name ∈ (Document.read t).stanzaNames → Addressable t name :=
  ⟨Draft.check_eq_badStanza_iff, addressable_of_mem⟩

/-- Colons may stand in a name, so this file has two stanzas of one name. -/
theorem stanzaNames_addressable_of_colon :
    let t : Text := [':', ':', '\n', 'a', '\n', ':', ':', '\r', '\n', 'b', ':']
    let i : Intent := ⟨.stanza [':'], none, [], .absent, true, false⟩
    (Document.read t).stanzaNames = [[':'], [':'], ['b']] ∧
      Draft.check { scope := .stanza [':'], presence := .absent } = .ok i ∧
      (i.edit (.read t)).stanzaNames = [['b']] ∧
      Draft.check { scope := .stanza [' ', '#'] } = .error (.badStanza ['#']) := by
  intro t i
  obtain ⟨hbad, hnames⟩ := stanzaNames_addressable
  have hread : (Document.read t).stanzaNames = [[':'], [':'], ['b']] := by decide
  have hcolon := hnames t [':'] (by rw [hread]; exact List.mem_cons_self)
  refine ⟨hread, hcolon.check_absent, ?_, ?_⟩
  · rw [(hcolon.removes i rfl rfl rfl).1.stanzaNames_edit, hread]
    decide
  · exact (hbad _ [' ', '#'] rfl (by decide) ['#']).2 ⟨by decide, by decide⟩

end Stanzas
