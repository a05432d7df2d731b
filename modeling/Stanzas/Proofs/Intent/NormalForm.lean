import Mathlib.Data.List.Induction
import Mathlib.Data.List.Nodup
import Mathlib.Data.Option.Basic
import Stanzas.Proofs.Intent.Fault
import Stanzas.Proofs.Intent.Steps
import Stanzas.Proofs.Text.Trim

/-!
# Checked intents are in normal form

`Draft.Normal` says which intent a draft holds: its names and values without the blanks around them,
each value where it was first mentioned. A check finds such an intent (`normal_of_check`), finds it
again in itself, and blanks around names and values make no difference to it:

    w.check = .ok i → i.draft.check = .ok i                                         (check_draft)
    w.trimmed.check = w.check                                                     (check_trimmed)
-/

namespace Stanzas

/-! ## Values without repetition -/

section
variable {α : Type} [BEq α] [LawfulBEq α] (l : List α)

/-- One more element counts if it is a new one. -/
theorem eraseDups_concat (a : α) :
    (l ++ [a]).eraseDups = l.eraseDups ++ if a ∈ l then [] else [a] := by
  rw [List.eraseDups_append]
  congr 1
  by_cases ha : a ∈ l <;> simp [List.removeAll, ha, List.eraseDups_cons]

theorem eraseDups_eq_self (h : l.Nodup) : l.eraseDups = l := by
  induction l using List.reverseRecOn with
  | nil => rfl
  | append_singleton l a ih =>
    rw [List.nodup_append] at h
    obtain ⟨hl, -, hne⟩ := h
    have ha : a ∉ l := fun hm => hne a hm a List.mem_cons_self rfl
    rw [eraseDups_concat, ih hl, if_neg ha]

/-- What is left stands in the order of the first mention. -/
theorem pairwise_idxOf_eraseDups : l.eraseDups.Pairwise fun a b => l.idxOf a < l.idxOf b := by
  induction l using List.reverseRecOn with
  | nil => exact List.Pairwise.nil
  | append_singleton l a ih =>
    have hold : l.eraseDups.Pairwise fun b c => (l ++ [a]).idxOf b < (l ++ [a]).idxOf c := by
      refine ih.imp_of_mem fun {b c} hb hc hbc => ?_
      rw [List.mem_eraseDups] at hb hc
      rwa [List.idxOf_append_of_mem hb, List.idxOf_append_of_mem hc]
    rw [eraseDups_concat]
    split
    · rwa [List.append_nil]
    · next ha =>
      rw [List.pairwise_append]
      refine ⟨hold, List.pairwise_singleton _ a, ?_⟩
      intro b hb c hc
      rw [List.mem_eraseDups] at hb
      obtain rfl := List.mem_singleton.1 hc
      have hlt := List.idxOf_lt_length_of_mem hb
      rw [List.idxOf_append_of_mem hb, List.idxOf_append_of_notMem ha]
      omega

theorem nodup_eraseDups : l.eraseDups.Nodup := by
  refine (pairwise_idxOf_eraseDups l).imp fun {a b} hab => ?_
  rintro rfl
  exact Nat.lt_irrefl _ hab

end

/-! ## The intent in a draft -/

/-- Which intent a draft holds. -/
structure Draft.Normal (w : Draft) (i : Intent) : Prop where
  scope_eq : i.scope = w.scope.trimmed
  trim_scope : ∀ name, i.scope = .stanza name → trim name = name ∧ name ≠ [] ∧ StanzaName name
  attr_eq : i.attr = w.attr.map trim
  trim_attr : ∀ name ∈ i.attr, trim name = name ∧ AttrName name
  /-- The values are those that the draft mentions. -/
  mem_values : ∀ v, v ∈ i.values ↔ v ∈ w.values.map trim
  /-- They stand in the order in which they are mentioned first. -/
  pairwise_values : i.values.Pairwise fun u v =>
    (w.values.map trim).idxOf u < (w.values.map trim).idxOf v
  nodup_values : i.values.Nodup
  /-- No value holds a newline or a carriage return. -/
  trim_values : ∀ v ∈ i.values, trim v = v ∧ ∀ c ∈ v, c ≠ '\n' ∧ c ≠ '\r'
  presence_eq : i.presence = w.presence
  exclusive_eq : i.exclusive = w.exclusive
  allowNoValue_eq : i.allowNoValue = w.allowNoValue
  nodup_desired : i.desired.Nodup
  desired_ne_nil : i.attr ≠ none → i.presence = .present → i.desired ≠ []

theorem Intent.nodup_desired (i : Intent) (h : i.values.Nodup) : i.desired.Nodup := by
  unfold desired
  split
  · exact List.nodup_singleton _
  · exact h.map (Option.some_injective _)

namespace Draft

variable (w : Draft) (i : Intent)

theorem normal_of_check (h : w.check = .ok i) : w.Normal i := by
  obtain ⟨hscope, hattr, hvalues, hpresence, hexclusive, hallow, -⟩ := w.check_eq_ok i h
  have hv := w.valid_of_check i h
  have hvs := ((checkValues_eq_ok_iff _ _).1 hvalues).1
  have hnodup : i.values.Nodup := hvs ▸ nodup_eraseDups _
  constructor
  case scope_eq => exact ((checkScope_eq_ok_iff _ _).1 hscope).1
  case trim_scope =>
    intro name hi
    obtain ⟨hword, hc⟩ := hv.scope name hi
    exact ⟨hword.trim_eq, hword.1, hc, hword.2⟩
  case attr_eq => exact ((checkAttr_eq_ok_iff _ _).1 hattr).1
  case trim_attr =>
    intro name hi
    obtain ⟨hname, htrim⟩ := hv.attr name hi
    exact ⟨htrim, hname⟩
  case mem_values =>
    intro v
    rw [hvs, List.mem_eraseDups]
  case pairwise_values => exact hvs ▸ pairwise_idxOf_eraseDups _
  case nodup_values => exact hnodup
  case trim_values =>
    intro v hmem
    obtain ⟨hline, htrim⟩ := hv.values v hmem
    exact ⟨htrim, fun c hc => not_or.1 (hline c hc)⟩
  case presence_eq => exact hpresence
  case exclusive_eq => exact hexclusive
  case allowNoValue_eq => exact hallow
  case nodup_desired => exact i.nodup_desired hnodup
  case desired_ne_nil => exact hv.desired_ne_nil

/-! ## Once more -/

theorem checkScope_trimmed (x : Scope) : checkScope x.trimmed = checkScope x := by
  cases x with
  | top => rfl
  | stanza name =>
    by_cases hne : trim name = [] <;> simp [checkScope, Scope.trimmed, hne, trim_trim]

theorem checkAttr_map_trim (x : Option Text) : checkAttr (x.map trim) = checkAttr x := by
  unfold checkAttr
  cases x with
  | none => rfl
  | some name => simp only [Option.map_some, trim_trim]

theorem checkValues_map_trim (vs : List Text) : checkValues (vs.map trim) = checkValues vs := by
  have hmap : (vs.map trim).map trim = vs.map trim := by
    rw [List.map_map]
    exact List.map_congr_left fun v _ => trim_trim v
  unfold checkValues
  rw [hmap]

/-- The check of an intent finds that intent. -/
theorem check_draft (h : w.check = .ok i) : i.draft.check = .ok i := by
  have hn := w.normal_of_check i h
  obtain ⟨hx, ha, -, -, -, -, hmissing⟩ := w.check_eq_ok i h
  have hscope : checkScope i.scope = .ok i.scope := by
    rw [← hx, hn.scope_eq, checkScope_trimmed]
  have hattr : checkAttr i.attr = .ok i.attr := by
    rw [← ha, hn.attr_eq, checkAttr_map_trim]
  have hvalues : checkValues i.values = .ok i.values := by
    rw [checkValues_eq_ok_iff]
    have hmap : i.values.map trim = i.values :=
      (List.map_congr_left fun v hv => (hn.trim_values v hv).1).trans (List.map_id _)
    refine ⟨?_, fun v hv => ?_⟩
    · rw [hmap, eraseDups_eq_self _ hn.nodup_values]
    · obtain ⟨htrim, hline⟩ := hn.trim_values v hv
      rw [htrim]
      exact fun c hc => not_or.2 (hline c hc)
  exact (i.draft.check_of_parts _ _ _ hscope hattr hvalues).trans (if_neg hmissing)

end Draft

/-- The steps that say all that an intent holds. -/
def Intent.steps (i : Intent) : List Draft.Step :=
  i.attr.toList.map .attr ++
    [.values i.values, .presence i.presence, .exclusive i.exclusive, .allowNoValue i.allowNoValue]

theorem Intent.ofSteps_steps (i : Intent) : Draft.ofSteps i.scope i.steps = i.draft := by
  obtain ⟨x, attr, vs, p, b, b'⟩ := i
  cases attr <;> rfl

/-! ## Blanks around names and values -/

/-- The same text with blanks around it. -/
def Padded (t u : Text) : Prop :=
  ∃ a b, (∀ c ∈ a, isBlank c = true) ∧ (∀ c ∈ b, isBlank c = true) ∧ u = a ++ t ++ b

theorem trim_of_padded (t u : Text) (h : Padded t u) : trim u = trim t := by
  obtain ⟨a, b, ha, hb, rfl⟩ := h
  exact trim_append a t b ha hb

theorem map_eq_of_forall₂ {α β : Type} (r : α → α → Prop) (f : α → β)
    (hf : ∀ a b, r a b → f b = f a) (l k : List α) (h : List.Forall₂ r l k) :
    k.map f = l.map f := by
  induction h with
  | nil => rfl
  | cons hab _ ih => rw [List.map_cons, List.map_cons, hf _ _ hab, ih]

/-- The same scope with blanks around its name. -/
inductive Scope.Padded : Scope → Scope → Prop where
  | top : Padded .top .top
  | stanza (n m : Text) (h : Stanzas.Padded n m) : Padded (.stanza n) (.stanza m)

theorem Scope.trimmed_of_padded (x y : Scope) (h : x.Padded y) : y.trimmed = x.trimmed := by
  cases h with
  | top => rfl
  | stanza n m h =>
    unfold trimmed
    simp only [trim_of_padded n m h]

namespace Draft

/-- A step without the blanks around what it names. -/
def Step.trimmed : Step → Step
  | .attr name => .attr (trim name)
  | .value v => .value (trim v)
  | .values vs => .values (vs.map trim)
  | s => s

/-- The same step with blanks around what it names. -/
inductive Step.Padded : Step → Step → Prop where
  | attr (n m : Text) (h : Stanzas.Padded n m) : Padded (.attr n) (.attr m)
  | value (u v : Text) (h : Stanzas.Padded u v) : Padded (.value u) (.value v)
  | values (us vs : List Text) (h : List.Forall₂ Stanzas.Padded us vs) :
    Padded (.values us) (.values vs)
  | presence (p : Presence) : Padded (.presence p) (.presence p)
  | absent : Padded .absent .absent
  | exclusive (b : Bool) : Padded (.exclusive b) (.exclusive b)
  | allowNoValue (b : Bool) : Padded (.allowNoValue b) (.allowNoValue b)

theorem Step.trimmed_of_padded (s s' : Step) (h : s.Padded s') : s'.trimmed = s.trimmed := by
  cases h with
  | attr n m h => exact congrArg Step.attr (trim_of_padded n m h)
  | value u v h => exact congrArg Step.value (trim_of_padded u v h)
  | values us vs h => exact congrArg Step.values (map_eq_of_forall₂ _ trim trim_of_padded us vs h)
  | presence => rfl
  | absent => rfl
  | exclusive => rfl
  | allowNoValue => rfl

section
variable (w : Draft) (steps : List Step)

/-- A draft without the blanks around its names and values. -/
def trimmed : Draft :=
  { w with scope := w.scope.trimmed, attr := w.attr.map trim, values := w.values.map trim }

/-- It makes no difference whether the blanks go before a step or after it. -/
theorem trimmed_step (s : Step) : (w.step s).trimmed = w.trimmed.step s.trimmed := by
  cases s <;> simp [step, trimmed, Step.trimmed]

theorem trimmed_foldl_step :
    (steps.foldl step w).trimmed = (steps.map Step.trimmed).foldl step w.trimmed := by
  induction steps generalizing w with
  | nil => rfl
  | cons s steps ih => rw [List.foldl_cons, ih, trimmed_step, List.map_cons, List.foldl_cons]

theorem trimmed_ofSteps (x : Scope) :
    (ofSteps x steps).trimmed = ofSteps x.trimmed (steps.map Step.trimmed) :=
  trimmed_foldl_step _ steps

/-- A check looks at names and values without the blanks around them. -/
theorem check_trimmed : w.trimmed.check = w.check := by
  unfold check trimmed
  simp only [checkScope_trimmed, checkAttr_map_trim, checkValues_map_trim]

end

theorem check_of_padded (x x' : Scope) (steps steps' : List Step) (hx : x.Padded x')
    (hsteps : List.Forall₂ Step.Padded steps steps') :
    (ofSteps x' steps').check = (ofSteps x steps).check := by
  rw [← check_trimmed (ofSteps x' steps'), ← check_trimmed (ofSteps x steps), trimmed_ofSteps,
    trimmed_ofSteps, x.trimmed_of_padded x' hx,
    map_eq_of_forall₂ _ _ Step.trimmed_of_padded steps steps' hsteps]

/-! ## Whatever the steps -/

/-- What a check finds depends on the last words of the steps and on all values that they add. It is
the first fault if there is one, else an intent in normal form, which is found again in itself and
whatever blanks stand around names and values. -/
theorem check_ofSteps (x : Scope) (steps : List Step) :
    ofSteps x steps =
      { scope := x
        attr := last? Step.attr? steps
        values := steps.flatMap Step.added
        presence := (last? Step.presence? steps).getD .present
        exclusive := (last? Step.exclusive? steps).getD true
        allowNoValue := (last? Step.allowNoValue? steps).getD false } ∧
    (∀ steps', (∀ f : Field, steps'.filter (·.field = f) = steps.filter (·.field = f)) →
      (ofSteps x steps').check = (ofSteps x steps).check) ∧
    (∀ e, (ofSteps x steps).check = .error e ↔ (ofSteps x steps).FirstFault e) ∧
    ((∃ i, (ofSteps x steps).check = .ok i) ↔ ∀ e, ¬ (ofSteps x steps).Fault e) ∧
    (∀ i, (ofSteps x steps).check = .ok i →
      (ofSteps x steps).Normal i ∧ (ofSteps i.scope i.steps).check = .ok i) ∧
    ∀ x' steps', x.Padded x' → List.Forall₂ Step.Padded steps steps' →
      (ofSteps x' steps').check = (ofSteps x steps).check := by
  refine ⟨ofSteps_eq x steps, ?_, check_eq_error_iff _, exists_check_eq_ok_iff _, ?_, ?_⟩
  · intro steps' h
    rw [ofSteps_congr x steps steps' h]
  · intro i hi
    refine ⟨normal_of_check _ i hi, ?_⟩
    rw [i.ofSteps_steps]
    exact check_draft _ i hi
  · intro x' steps' hx hsteps
    exact check_of_padded x x' steps steps' hx hsteps

/-- The attribute may be named before its values or after them, and a value that comes twice is one
value with or without blanks. -/
theorem check_ofSteps_of_two_values :
    let steps : List Step := [.value ['1'], .attr ['a'], .values [['2'], ['1']]]
    let steps' : List Step := [.value [' ', '1'], .attr ['a', '\n'], .values [['2'], ['1']]]
    let i : Intent := ⟨.stanza ['s'], some ['a'], [['1'], ['2']], .present, true, false⟩
    (ofSteps (.stanza ['s']) steps).check = .ok i ∧ (ofSteps i.scope i.steps).check = .ok i ∧
      (ofSteps (.stanza ['s']) [.attr ['a'], .value ['1'], .values [['2'], ['1']]]).check = .ok i ∧
      (ofSteps (.stanza ['s', ' ']) steps').check = .ok i := by
  intro steps steps' i
  obtain ⟨-, horder, -, -, hok, hpadded⟩ := check_ofSteps (.stanza ['s']) steps
  have hcheck : (ofSteps (.stanza ['s']) steps).check = .ok i := by decide
  have hblank : isBlank ' ' = true := isBlank_space
  have hbreak : isBlank '\n' = true := by decide
  refine ⟨hcheck, (hok i hcheck).2, ?_, ?_⟩
  · rw [horder _ fun f => by cases f <;> rfl, hcheck]
  · rw [hpadded (.stanza ['s', ' ']) steps', hcheck]
    · exact .stanza _ _ ⟨[], [' '], by simp, by simp [hblank], rfl⟩
    · refine .cons (.value _ _ ⟨[' '], [], by simp [hblank], by simp, rfl⟩)
        (.cons (.attr _ _ ⟨[], ['\n'], by simp, by simp [hbreak], rfl⟩)
          (.cons (.values _ _ ?_) .nil))
      refine .cons ?_ (.cons ?_ .nil)
      · exact ⟨[], [], by simp, by simp, rfl⟩
      · exact ⟨[], [], by simp, by simp, rfl⟩

end Draft

end Stanzas
