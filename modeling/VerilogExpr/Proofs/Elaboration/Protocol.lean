import VerilogExpr.Proofs.Elaboration.Outcomes

/-!
# The protocol of errors

A step that rejects the input has said so by an error, and a step with a result has reported no
error.  Nothing holds the two together but the way in which steps are put together: a check comes
before the change it guards, both of two checks are taken before either one rejects, and what comes
after the change only tells of it.  Each of these ways has a rule here.
-/

namespace VerilogExpr

theorem Rejection.severity_diagnostic (r : Rejection) : r.diagnostic.severity = .error := by
  cases r <;> rfl

/-- Whether the event tells of a value, and so of no change. -/
def Event.isFound : Event → Bool
  | evaluated _ _ => true
  | _ => false

namespace Elaboration

variable {α β : Type} {P : α → Prop} {Q : β → Prop} {x : Elaboration α}
  {next : α → Elaboration β}

structure Silent (x : Elaboration α) : Prop where
  accepts : x.outcome ≠ .error .rejected
  harmless : ∀ d ∈ x.diagnostics, d.severity.isFailure = false

/-- A step that has reported an error exactly if it rejects its input.  A result has the given
property, and before a rejection nothing was changed. -/
structure Guarded (P : α → Prop) (x : Elaboration α) : Prop where
  no_bug : ∀ d ∈ x.diagnostics, d.severity ≠ .bug
  ok : ∀ result, x.outcome = .ok result → x.reported .error = [] ∧ P result
  rejected : x.outcome = .error .rejected →
    x.reported .error ≠ [] ∧ ∀ event ∈ x.events, event.isFound = true

structure Checks (x : Elaboration α) : Prop where
  guarded : x.Guarded fun _ => True
  found : ∀ event ∈ x.events, event.isFound = true

/-! ### Steps that only tell -/

theorem silent_pure (result : α) : (pure result : Elaboration α).Silent :=
  ⟨by simp, by intro d hd; cases hd⟩

theorem silent_monadLift (demand : Except Violation α) :
    (monadLift demand : Elaboration α).Silent := by
  constructor
  · intro h
    cases demand with
    | error v => cases h
    | ok result => cases h
  · intro d hd
    cases hd

theorem silent_log (events : List Event) : (log events).Silent := by
  constructor
  · intro h
    cases h
  · intro d hd
    cases hd

theorem silent_report {d : Diagnostic} (h : d.severity.isFailure = false) : (report d).Silent := by
  constructor
  · intro hrejected
    cases hrejected
  · intro other hmem
    rwa [List.mem_singleton.mp hmem]

theorem Silent.bind (hx : x.Silent) (hnext : ∀ result, (next result).Silent) :
    (x >>= next).Silent := by
  cases h : x.outcome with
  | error stop =>
      rw [bind_of_error h]
      refine ⟨fun hrejected => ?_, hx.harmless⟩
      cases hrejected
      exact hx.accepts h
  | ok result =>
      rw [bind_of_ok h]
      refine ⟨(hnext result).accepts, fun d hmem => ?_⟩
      rcases List.mem_append.mp hmem with hd | hd
      · exact hx.harmless d hd
      · exact (hnext result).harmless d hd

theorem Silent.reported_eq_nil (hx : x.Silent) : x.reported .error = [] := by
  refine List.filter_eq_nil_iff.mpr fun d hmem => ?_
  simpa [Severity.isFailure] using hx.harmless d hmem

theorem Silent.guarded (hx : x.Silent) (hresult : x.Yields P) : x.Guarded P where
  no_bug d hmem hbug := by
    have hharmless := hx.harmless d hmem
    rw [hbug] at hharmless
    exact absurd hharmless (by decide)
  ok result h := ⟨hx.reported_eq_nil, hresult result h⟩
  rejected h := absurd h hx.accepts

theorem Silent.checks (hx : x.Silent) (hevents : ∀ event ∈ x.events, event.isFound = true) :
    x.Checks :=
  ⟨hx.guarded fun _ _ => trivial, hevents⟩

/-! ### Checks -/

theorem checks_pure (result : α) : (pure result : Elaboration α).Checks :=
  (silent_pure result).checks fun _ hmem => absurd hmem List.not_mem_nil

theorem checks_monadLift (demand : Except Violation α) :
    (monadLift demand : Elaboration α).Checks :=
  (silent_monadLift demand).checks fun _ hmem => absurd hmem List.not_mem_nil

theorem checks_reject (r : Rejection) : (reject r : Elaboration α).Checks := by
  have hseverity := r.severity_diagnostic
  refine ⟨⟨fun d hmem => ?_, fun result h => ?_, fun _ => ⟨?_, ?_⟩⟩, ?_⟩
  · rw [List.mem_singleton.mp hmem, hseverity]
    decide
  · cases h
  · simp [reported, reject, hseverity]
  · exact fun event hmem => absurd hmem List.not_mem_nil
  · exact fun event hmem => absurd hmem List.not_mem_nil

theorem checks_report {d : Diagnostic} (h : d.severity.isFailure = false) : (report d).Checks :=
  (silent_report h).checks fun _ hmem => absurd hmem List.not_mem_nil

theorem checks_reportIf {d : Diagnostic} (wanted : Bool) (h : d.severity.isFailure = false) :
    (reportIf wanted d).Checks := by
  unfold reportIf
  split
  · exact checks_report h
  · exact checks_pure ()

/-! ### Guarded steps -/

theorem guarded_pure {result : α} (h : P result) : (pure result : Elaboration α).Guarded P :=
  (silent_pure result).guarded (.pure h)

theorem guarded_reject (r : Rejection) : (reject r : Elaboration α).Guarded P where
  no_bug := (checks_reject (α := α) r).guarded.no_bug
  ok result h := by cases h
  rejected := (checks_reject r).guarded.rejected

theorem Guarded.map {f : α → β} (hx : x.Guarded P) (hf : ∀ result, P result → Q (f result)) :
    (x >>= fun result => pure (f result)).Guarded Q := by
  rw [bind_pure_eq]
  refine ⟨hx.no_bug, fun result hok => ?_, fun hrejected => ?_⟩
  · cases h : x.outcome with
    | error stop => simp [h, Except.map] at hok
    | ok other =>
        obtain rfl : f other = result := by simpa [h, Except.map] using hok
        obtain ⟨hquiet, hother⟩ := hx.ok other h
        exact ⟨hquiet, hf other hother⟩
  · cases h : x.outcome with
    | ok other => simp [h, Except.map] at hrejected
    | error stop =>
        obtain rfl : stop = .rejected := by simpa [h, Except.map] using hrejected
        exact hx.rejected h

/-- A check in front of a step. -/
theorem Checks.guards (hx : x.Checks)
    (hnext : ∀ result, x.outcome = .ok result → (next result).Guarded Q) :
    (x >>= next).Guarded Q := by
  cases h : x.outcome with
  | error stop =>
      rw [bind_of_error h]
      refine ⟨hx.guarded.no_bug, fun result hok => ?_, fun hrejected => ?_⟩
      · cases hok
      · cases hrejected
        exact hx.guarded.rejected h
  | ok result =>
      have hrest := hnext result h
      have hreported : (x >>= next).reported .error = (next result).reported .error := by
        rw [bind_of_ok h, reported, List.filter_append]
        exact congrArg (· ++ _) (hx.guarded.ok result h).1
      have houtcome : (x >>= next).outcome = (next result).outcome := by rw [bind_of_ok h]
      refine ⟨fun d hmem => ?_, fun other hok => ?_, fun hrejected => ?_⟩
      · rw [bind_of_ok h] at hmem
        rcases List.mem_append.mp hmem with hd | hd
        · exact hx.guarded.no_bug d hd
        · exact hrest.no_bug d hd
      · rw [hreported]
        exact hrest.ok other (houtcome.symm.trans hok)
      · obtain ⟨herrors, hfound⟩ := hrest.rejected (houtcome.symm.trans hrejected)
        rw [hreported]
        refine ⟨herrors, fun event hmem => ?_⟩
        rw [bind_of_ok h] at hmem
        rcases List.mem_append.mp hmem with hevent | hevent
        · exact hx.found event hevent
        · exact hfound event hevent

theorem Checks.bind (hx : x.Checks) (hnext : ∀ result, (next result).Checks) :
    (x >>= next).Checks := by
  refine ⟨hx.guards fun result _ => (hnext result).guarded, fun event hmem => ?_⟩
  cases h : x.outcome with
  | error stop =>
      rw [bind_of_error h] at hmem
      exact hx.found event hmem
  | ok result =>
      rw [bind_of_ok h] at hmem
      rcases List.mem_append.mp hmem with hevent | hevent
      · exact hx.found event hevent
      · exact (hnext result).found event hevent

/-- Two checks leave the arena alone, and what they report tells whether one of them rejected. -/
theorem checks_both {y : Elaboration β} (hx : x.Checks) (hy : y.Checks) : (both x y).Checks := by
  have hbugs : ∀ d ∈ x.diagnostics ++ y.diagnostics, d.severity ≠ .bug :=
    List.forall_mem_append.mpr ⟨hx.guarded.no_bug, hy.guarded.no_bug⟩
  have hfound : ∀ event ∈ x.events ++ y.events, event.isFound = true :=
    List.forall_mem_append.mpr ⟨hx.found, hy.found⟩
  have hreported : ∀ {γ : Type} {outcome : Except Stop γ},
      reported .error ⟨outcome, x.diagnostics ++ y.diagnostics, x.events ++ y.events⟩ =
        x.reported .error ++ y.reported .error :=
    List.filter_append ..
  unfold both
  cases hfirst : x.outcome with
  | ok first =>
      obtain ⟨hquiet, -⟩ := hx.guarded.ok first hfirst
      refine ⟨⟨hbugs, fun result hok => ⟨?_, trivial⟩, fun hrejected => ⟨?_, hfound⟩⟩, hfound⟩
      · cases hsecond : y.outcome with
        | ok second => rw [hreported, hquiet, (hy.guarded.ok second hsecond).1, List.nil_append]
        | error stop => simp [hsecond, Except.map] at hok
      · cases hsecond : y.outcome with
        | ok second => simp [hsecond, Except.map] at hrejected
        | error stop =>
            obtain rfl : stop = .rejected := by simpa [hsecond, Except.map] using hrejected
            rw [hreported, hquiet, List.nil_append]
            exact (hy.guarded.rejected hsecond).1
  | error stop =>
      cases stop with
      | violation v =>
          refine ⟨⟨hx.guarded.no_bug, fun result hok => ?_, fun hrejected => ?_⟩, hx.found⟩
          · cases hok
          · cases hrejected
      | rejected =>
          obtain ⟨herrors, -⟩ := hx.guarded.rejected hfirst
          refine ⟨⟨hbugs, fun result hok => ?_, fun _ => ⟨?_, hfound⟩⟩, hfound⟩
          · dsimp only at hok
            split at hok <;> cases hok
          · rw [hreported]
            exact List.append_ne_nil_of_left_ne_nil herrors _

theorem checks_checkAll {check : α → Elaboration Unit} (h : ∀ member, (check member).Checks)
    (members : List α) : (checkAll check members).Checks := by
  induction members with
  | nil => exact checks_pure ()
  | cons member members ih => exact (checks_both (h member) ih).bind fun _ => checks_pure ()

theorem checks_forM {step : α → Elaboration Unit} (h : ∀ member, (step member).Checks)
    (members : List α) : (members.forM step).Checks := by
  induction members with
  | nil => exact checks_pure ()
  | cons member members ih => exact (h member).bind fun _ => ih

/-- The values that an evaluation has found are no changes, also where it fails in the end. -/
theorem checks_ofEvaluation (evaluation : Evaluation α) : (ofEvaluation evaluation).Checks := by
  have hlog : (log (Event.ofFound evaluation.found)).Checks := by
    refine (silent_log _).checks fun event hmem => ?_
    obtain ⟨⟨id, value⟩, -, rfl⟩ := List.mem_map.mp hmem
    rfl
  refine hlog.bind fun _ => ?_
  split
  · exact checks_pure _
  · exact checks_monadLift (.error _)
  · exact checks_reject _

/-! ### Single errors -/

/-- A check stops at its first error, so what follows adds none. -/
theorem Checks.length_bind_le_one (hx : x.Checks) (hlength : (x.reported .error).length ≤ 1)
    (hnext : ∀ result, ((next result).reported .error).length ≤ 1) :
    ((x >>= next).reported .error).length ≤ 1 := by
  cases h : x.outcome with
  | error stop =>
      rw [bind_of_error h]
      exact hlength
  | ok result =>
      rw [bind_of_ok h, reported, List.filter_append]
      have hquiet := (hx.guarded.ok result h).1
      rw [reported] at hquiet
      rw [hquiet]
      exact hnext result

theorem length_reported_reject (r : Rejection) :
    ((reject r : Elaboration α).reported .error).length ≤ 1 :=
  List.length_filter_le _ _

theorem length_reported_ofEvaluation (evaluation : Evaluation α) :
    ((ofEvaluation evaluation).reported .error).length ≤ 1 := by
  unfold ofEvaluation
  rw [bind_of_ok (x := log (Event.ofFound evaluation.found)) rfl]
  refine Nat.le_trans (List.length_filter_le _ _) ?_
  rw [List.length_append]
  change 0 + _ ≤ 1
  split
  · exact Nat.zero_le 1
  · exact Nat.zero_le 1
  · exact Nat.le_refl 1

end Elaboration

end VerilogExpr
