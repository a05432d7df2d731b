import Mathlib.Data.List.Basic
import Stanzas.Intent.Draft
import Stanzas.Proofs.Line

/-!
# Checked intents

What `Draft.check` promises about an intent is all that an edit relies on (`valid_of_check`): its
names can stand in a header and in front of an equals sign, its values on one line, and an attribute
that shall be present has something to be written. The parts of a draft are checked one by one, and
for each of them there is a lemma on what its check finds and when it finds it
(`checkScope_eq_ok_iff` and its kin).
-/

namespace Stanzas

/-- An intent that a file can be made to satisfy. -/
structure Intent.Valid (i : Intent) : Prop where
  scope : ∀ n, i.scope = .stanza n → Word n ∧ n.head? ≠ some '#'
  attr : ∀ a, i.attr = some a → ReadableName a
  values : ∀ v ∈ i.values, OneLine v ∧ trim v = v
  desired_ne_nil : i.attr ≠ none → i.presence = .present → i.desired ≠ []

theorem bind_eq_ok {ε α β : Type} (x : Except ε α) (f : α → Except ε β) (b : β) :
    x >>= f = .ok b ↔ ∃ a, x = .ok a ∧ f a = .ok b := by
  cases x <;> simp [bind, Except.bind]

/-! ## Part by part -/

/-- A scope without the blanks around its name. Without a name it is the top level. -/
def Scope.trimmed : Scope → Scope
  | .top => .top
  | .stanza name => if trim name = [] then .top else .stanza (trim name)

theorem Scope.exists_of_trimmed (x : Scope) (name : Text) (h : x.trimmed = .stanza name) :
    name ≠ [] ∧ ∃ n, x = .stanza n ∧ trim n = name := by
  unfold trimmed at h
  split at h
  · cases h
  · next n =>
    split at h
    · cases h
    · next hne =>
      cases h
      exact ⟨hne, n, rfl, rfl⟩

namespace Draft

theorem checkScope_eq_ok_iff (x y : Scope) : checkScope x = .ok y ↔
    y = x.trimmed ∧ ∀ name, x = .stanza name → trim name ≠ [] → StanzaName (trim name) := by
  cases x with
  | top =>
    constructor
    · rintro ⟨⟩
      exact ⟨rfl, fun _ hx => nomatch hx⟩
    · rintro ⟨rfl, -⟩
      rfl
  | stanza name =>
    by_cases hnil : trim name = []
    · have hcheck : checkScope (.stanza name) = .ok .top := if_pos hnil
      have htrimmed : (Scope.stanza name).trimmed = .top := if_pos hnil
      rw [hcheck, htrimmed]
      constructor
      · rintro ⟨⟩
        refine ⟨rfl, ?_⟩
        rintro _ ⟨⟩ hne
        exact absurd hnil hne
      · rintro ⟨rfl, -⟩
        rfl
    · have htrimmed : (Scope.stanza name).trimmed = .stanza (trim name) := if_neg hnil
      by_cases hname : StanzaName (trim name)
      · have hcheck : checkScope (.stanza name) = .ok (.stanza (trim name)) :=
          (if_neg hnil).trans (if_pos hname)
        rw [hcheck, htrimmed]
        constructor
        · rintro ⟨⟩
          refine ⟨rfl, ?_⟩
          rintro _ ⟨⟩ -
          exact hname
        · rintro ⟨rfl, -⟩
          rfl
      · have hcheck : checkScope (.stanza name) = .error (.badStanza (trim name)) :=
          (if_neg hnil).trans (if_neg hname)
        rw [hcheck]
        exact iff_of_false (fun h => nomatch h) fun h => hname (h.2 name rfl hnil)

theorem checkAttr_eq_ok_iff (x y : Option Text) : checkAttr x = .ok y ↔
    y = x.map trim ∧ ∀ name ∈ x, AttrName (trim name) := by
  rw [eq_comm (a := y)]
  unfold checkAttr
  cases x with
  | none => simp
  | some name => by_cases hname : AttrName (trim name) <;> simp [hname]

theorem checkValues_eq_ok_iff (vs ws : List Text) : checkValues vs = .ok ws ↔
    ws = (vs.map trim).eraseDups ∧ ∀ v ∈ vs, OneLine (trim v) := by
  have hnone : (vs.map trim).find? (¬ OneLine ·) = none ↔ ∀ v ∈ vs, OneLine (trim v) := by
    rw [List.find?_eq_none, List.forall_mem_map]
    simp
  unfold checkValues
  rw [← hnone, eq_comm (a := ws)]
  cases (vs.map trim).find? (¬ OneLine ·) <;> simp

/-! ## All parts -/

/-- Each part of a checked intent has passed its own check. -/
theorem check_eq_ok (w : Draft) (i : Intent) (h : w.check = .ok i) :
    checkScope w.scope = .ok i.scope ∧ checkAttr w.attr = .ok i.attr ∧
      checkValues w.values = .ok i.values ∧ i.presence = w.presence ∧
      i.exclusive = w.exclusive ∧ i.allowNoValue = w.allowNoValue ∧
      ¬ (i.attr ≠ none ∧ i.presence = .present ∧ i.values = [] ∧ ¬ i.allowNoValue) := by
  unfold check at h
  obtain ⟨x, hscope, h⟩ := (bind_eq_ok _ _ _).1 h
  obtain ⟨a, hattr, h⟩ := (bind_eq_ok _ _ _).1 h
  obtain ⟨vs, hvalues, h⟩ := (bind_eq_ok _ _ _).1 h
  split at h
  · cases h
  · next hc =>
    cases h
    exact ⟨hscope, hattr, hvalues, rfl, rfl, rfl, hc⟩

theorem valid_of_check (w : Draft) (i : Intent) (h : w.check = .ok i) : i.Valid := by
  obtain ⟨hscope, hattr, hvalues, -, -, -, hmissing⟩ := w.check_eq_ok i h
  obtain ⟨hx, hname⟩ := (checkScope_eq_ok_iff _ _).1 hscope
  obtain ⟨ha, hattrName⟩ := (checkAttr_eq_ok_iff _ _).1 hattr
  obtain ⟨hvs, honeLine⟩ := (checkValues_eq_ok_iff _ _).1 hvalues
  constructor
  case scope =>
    intro name hi
    obtain ⟨hne, n, hn, rfl⟩ := w.scope.exists_of_trimmed name (hx ▸ hi)
    obtain ⟨hc, hw⟩ := hname n hn hne
    exact ⟨⟨hne, hw⟩, hc⟩
  case attr =>
    intro name hi
    rw [ha] at hi
    obtain ⟨n, hn, rfl⟩ := Option.map_eq_some_iff.1 hi
    exact ⟨hattrName n hn, trim_trim n⟩
  case values =>
    intro v hv
    rw [hvs, List.mem_eraseDups] at hv
    obtain ⟨u, hu, rfl⟩ := List.mem_map.1 hv
    exact ⟨honeLine u hu, trim_trim u⟩
  case desired_ne_nil =>
    intro ha hp hd
    unfold Intent.desired at hd
    split at hd
    · cases hd
    · next hc =>
      rw [List.map_eq_nil_iff] at hd
      exact hmissing ⟨ha, hp, hd, fun hb => hc ⟨hd, hb, hp⟩⟩

end Draft

end Stanzas
