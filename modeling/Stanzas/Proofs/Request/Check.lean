import Stanzas.Proofs.Request

/-!
# Requests that are only checked

A request with `check` looks at files and writes none, and what it reports is the same that the
request without `check` reports, the copy apart (`run_of_check`). Both come to what can be told of a
request before anything is written (`Request.forecast`):

    r.check = true → (r.run tag).run.run s = (r.forecast s, s)
    r.check = false → ((r.run tag).run.run s).1 = .ok report →
      r.forecast s = .ok { report with backup := none }

This is so on every file system where looking at files has no effect.
-/

namespace Stanzas

namespace Request

variable {σ : Type} [Files (StateM σ)]

section
variable (r : Request) (s : σ)

/-- What is to be reported if a text is found. -/
def expected (before : Text) : Report :=
  { r.report before (r.outcome before) with
    changed := (r.outcome before).changed || r.wantsMode s }

/-- What can be told of a request before anything is written. -/
def forecast : Except Failure Report :=
  ((r.path.readText r.create : ExceptT Failure (StateM σ) Text).run.run s).1.map (r.expected s)

theorem expected_of_changed (before : Text) (h : (r.outcome before).changed = true) :
    r.expected s before = r.report before (r.outcome before) := by
  unfold expected
  rw [h, Bool.true_or, ← h]
  rfl

theorem expected_of_same (before : Text) (h : (r.outcome before).changed = false) :
    r.expected s before = { r.report before (r.outcome before) with changed := r.wantsMode s } := by
  unfold expected
  rw [h, Bool.false_or]

end

section
variable (hquiet : Files.Quiet σ) (r : Request) (s : σ)

include hquiet

/-! ## The forecast -/

/-- With `check` the forecast is all there is. -/
theorem run_of_check_eq_true (hcheck : r.check = true) (tag : Text) :
    (r.run tag : ExceptT Failure (StateM σ) Report).run.run s = (r.forecast s, s) := by
  obtain ⟨read, hread⟩ := exists_run_readText hquiet s r.path r.create
  unfold run forecast
  rw [run_run_bind, hread]
  cases read with
  | error failure => rfl
  | ok before =>
    change (if (r.outcome before).changed = true then _ else _ :
      ExceptT Failure (StateM σ) Report).run.run s = (Except.ok (r.expected s before), s)
    cases hchanged : (r.outcome before).changed with
    | true =>
      rw [if_pos rfl, if_pos hcheck, r.expected_of_changed s before hchanged]
      rfl
    | false =>
      rw [if_neg Bool.false_ne_true, r.expected_of_same s before hchanged, run_run_bind]
      rcases run_adjustMode_cases hquiet r s with
        ⟨hwants, hrun⟩ | ⟨hwants, -, hrun⟩ | ⟨-, hnot, -⟩
      · rw [hrun, hwants]
        rfl
      · rw [hrun, hwants]
        rfl
      · rw [hnot] at hcheck
        cases hcheck

/-- A failure that is forecast comes true, and a report is the one that was forecast. -/
theorem forecast_of_run (hcheck : r.check = false) (tag : Text) :
    (∀ failure, r.forecast s = .error failure →
        ((r.run tag : ExceptT Failure (StateM σ) Report).run.run s).1 = .error failure) ∧
      ∀ report, ((r.run tag : ExceptT Failure (StateM σ) Report).run.run s).1 = .ok report →
        r.forecast s = .ok { report with backup := none } := by
  obtain ⟨read, hread⟩ := exists_run_readText hquiet s r.path r.create
  unfold run forecast
  rw [run_run_bind, hread]
  cases read with
  | error failure =>
    exact ⟨fun failure' h => h, fun _ h => nomatch h⟩
  | ok before =>
    refine ⟨fun _ h => (nomatch h), fun report h => ?_⟩
    obtain ⟨s', h⟩ : ∃ s', (if (r.outcome before).changed = true then _ else _ :
      ExceptT Failure (StateM σ) Report).run.run s = (.ok report, s') := ⟨_, Prod.ext h rfl⟩
    show Except.ok (r.expected s before) = _
    cases hchanged : (r.outcome before).changed with
    | true =>
      rw [hchanged, if_pos rfl, if_neg (by rw [hcheck]; exact Bool.false_ne_true)] at h
      obtain ⟨backup, _, -, h⟩ := ok_of_run_bind _ _ _ h
      obtain ⟨_, _, -, h⟩ := ok_of_run_bind _ _ _ h
      obtain rfl := Except.ok.inj (Prod.mk.inj h).1
      rw [r.expected_of_changed s before hchanged]
      rfl
    | false =>
      rw [hchanged, if_neg Bool.false_ne_true] at h
      obtain ⟨changed, _, hadjust, h⟩ := ok_of_run_bind _ _ _ h
      obtain rfl := Except.ok.inj (Prod.mk.inj h).1
      rw [r.expected_of_same s before hchanged]
      have hwants : changed = r.wantsMode s := by
        rcases run_adjustMode_cases hquiet r s with
          ⟨hwants, hrun⟩ | ⟨-, hcheck', -⟩ | ⟨hwants, -, mode, -, hrun⟩
        · rw [hrun] at hadjust
          cases hadjust
          exact hwants.symm
        · rw [hcheck] at hcheck'
          cases hcheck'
        · rw [hrun] at hadjust
          obtain ⟨_, _, -, hset⟩ := ok_of_run_bind _ _ _ hadjust
          rw [hwants, ← Except.ok.inj (Prod.mk.inj hset).1]
      rw [hwants]
      rfl

end

/-! ## Check and run -/

/-- A request with `check` leaves everything as it is. If it fails the request without `check` fails
the same way, and if that one succeeds this one reports the same, the copy apart. -/
theorem run_of_check (hquiet : Files.Quiet σ) (r : Request) (hcheck : r.check = true)
    (tag tag' : Text) (s : σ) : ∃ result,
    (r.run tag : ExceptT Failure (StateM σ) Report).run.run s = (result, s) ∧
      (∀ failure, result = .error failure →
        (({ r with check := false }.run tag' : ExceptT Failure (StateM σ) Report).run.run s).1 =
          .error failure) ∧
      ∀ report,
        (({ r with check := false }.run tag' : ExceptT Failure (StateM σ) Report).run.run s).1 =
          .ok report →
        result = .ok { report with backup := none } := by
  obtain ⟨hfails, hreports⟩ := forecast_of_run hquiet { r with check := false } s rfl tag'
  exact ⟨r.forecast s, run_of_check_eq_true hquiet r s hcheck tag, hfails, hreports⟩

/-- A request that keeps a copy reports the same when it is only checked, but for the copy. -/
theorem run_of_check_of_backup :
    ∃ report, (carryOut ((addStanza ⟨['f']⟩ ['b']).keeping.run ['2'])
        (.ofFile ['f'] (utf8 ['a', ':', '\n']) 0o644)).1 = .ok report ∧
      report.backup = some ⟨"f.2~".toList⟩ ∧
      (carryOut ({ (addStanza ⟨['f']⟩ ['b']).keeping with check := true }.run ['1'])
        (.ofFile ['f'] (utf8 ['a', ':', '\n']) 0o644)).1 = .ok { report with backup := none } := by
  obtain ⟨result, hrun, -, hreports⟩ := run_of_check FileTree.quiet
    { (addStanza ⟨['f']⟩ ['b']).keeping with check := true } rfl ['1'] ['2']
    (.ofFile ['f'] (utf8 ['a', ':', '\n']) 0o644)
  have hbackup : (carryOut ((addStanza ⟨['f']⟩ ['b']).keeping.run ['2'])
      (.ofFile ['f'] (utf8 ['a', ':', '\n']) 0o644)).1.toOption.bind Report.backup =
        some ⟨"f.2~".toList⟩ := by decide +kernel
  cases hwritten : (carryOut ((addStanza ⟨['f']⟩ ['b']).keeping.run ['2'])
      (.ofFile ['f'] (utf8 ['a', ':', '\n']) 0o644)).1 with
  | error failure =>
    rw [hwritten] at hbackup
    cases hbackup
  | ok report =>
    rw [hwritten] at hbackup
    have hresult := hreports report hwritten
    exact ⟨report, rfl, hbackup, (congrArg Prod.fst hrun).trans hresult⟩

end Request

end Stanzas
