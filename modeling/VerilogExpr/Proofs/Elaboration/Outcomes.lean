import VerilogExpr.Elaboration.Basic

/-!
# Outcomes of steps

The outcome of a step of elaboration, without its reports.  A sequence of steps has the outcome of
the sequence, and reports change no outcome.
-/

namespace VerilogExpr.Elaboration

variable {α β : Type}

@[simp]
theorem outcome_bind (x : Elaboration α) (next : α → Elaboration β) :
    (x >>= next).outcome = x.outcome >>= fun result => (next result).outcome := by
  change (andThen x next).outcome = _
  unfold andThen
  cases x.outcome <;> rfl

@[simp]
theorem outcome_pure (result : α) : (pure result : Elaboration α).outcome = .ok result := rfl

@[simp]
theorem outcome_lift (outcome : Except Stop α) : (lift outcome).outcome = outcome := rfl

@[simp]
theorem outcome_monadLift (demand : Except Violation α) :
    (monadLift demand : Elaboration α).outcome = demand.mapError .violation := rfl

@[simp]
theorem outcome_reject (r : Rejection) :
    (reject r : Elaboration α).outcome = .error .rejected := rfl

def orRejected (result? : Option α) : Except Stop α := result?.elim (.error .rejected) .ok

theorem orRejected_eq_ok_iff {result? : Option α} {result : α} :
    orRejected result? = .ok result ↔ result? = some result := by
  cases result? with
  | none => simp [orRejected]
  | some other => simp [orRejected]

theorem orRejected_bind {x? : Option α} {next : α → Except Stop β} {next? : α → Option β}
    (h : ∀ x, x? = some x → next x = orRejected (next? x)) :
    (orRejected x? >>= next) = orRejected (x?.bind next?) := by
  cases x? with
  | none => rfl
  | some x => exact h x rfl

theorem diagnostics_bind (x : Elaboration α) (next : α → Elaboration β) :
    (x >>= next).diagnostics =
      x.diagnostics ++ x.outcome.toOption.elim [] fun result => (next result).diagnostics := by
  change (andThen x next).diagnostics = _
  unfold andThen
  cases x.outcome with
  | ok result => rfl
  | error stop => exact (List.append_nil _).symm

theorem bind_of_ok {x : Elaboration α} {next : α → Elaboration β} {result : α}
    (h : x.outcome = .ok result) :
    x >>= next = ⟨(next result).outcome, x.diagnostics ++ (next result).diagnostics,
      x.events ++ (next result).events⟩ := by
  change andThen x next = _
  unfold andThen
  rw [h]

theorem bind_of_error {x : Elaboration α} {next : α → Elaboration β} {stop : Stop}
    (h : x.outcome = .error stop) : x >>= next = ⟨.error stop, x.diagnostics, x.events⟩ := by
  change andThen x next = _
  unfold andThen
  rw [h]

theorem bind_pure_eq (x : Elaboration α) (f : α → β) :
    (x >>= fun result => pure (f result)) = ⟨x.outcome.map f, x.diagnostics, x.events⟩ := by
  cases h : x.outcome with
  | ok result =>
      rw [bind_of_ok h]
      change Elaboration.mk _ (x.diagnostics ++ []) (x.events ++ []) = _
      rw [List.append_nil, List.append_nil]
      rfl
  | error stop =>
      rw [bind_of_error h]
      rfl

def reported (least : Severity) (x : Elaboration α) : List Diagnostic :=
  x.diagnostics.filter fun d => least.rank ≤ d.severity.rank

def Yields (P : α → Prop) (x : Elaboration α) : Prop :=
  ∀ result, x.outcome = .ok result → P result

theorem Yields.pure {P : α → Prop} {result : α} (h : P result) :
    Yields P (Pure.pure result : Elaboration α) := by
  intro other heq
  cases heq
  exact h

theorem yields_reject {P : α → Prop} (r : Rejection) : Yields P (reject r : Elaboration α) := by
  intro result heq
  cases heq

theorem Yields.bind {P : α → Prop} {Q : β → Prop} {x : Elaboration α}
    {next : α → Elaboration β} (hx : Yields P x)
    (hnext : ∀ result, P result → Yields Q (next result)) : Yields Q (x >>= next) := by
  intro result heq
  rw [outcome_bind] at heq
  cases hmiddle : x.outcome with
  | error stop => simp [hmiddle, Bind.bind, Except.bind] at heq
  | ok middle =>
      rw [hmiddle] at heq
      exact hnext middle (hx middle hmiddle) result heq

/-- A property of the last step is a property of the whole sequence. -/
theorem Yields.of_last {Q : β → Prop} {x : Elaboration α} {next : α → Elaboration β}
    (hnext : ∀ result, Yields Q (next result)) : Yields Q (x >>= next) :=
  Yields.bind (P := fun _ => True) (fun _ _ => trivial) fun result _ => hnext result

theorem yields_monadLift (demand : Except Violation α) :
    Yields (fun result => demand = .ok result) (monadLift demand) := by
  intro result heq
  rw [outcome_monadLift] at heq
  cases demand with
  | error v => cases heq
  | ok other =>
      cases heq
      rfl

theorem yields_of_outcome {x : Elaboration α} {result? : Option α}
    (h : x.outcome = orRejected result?) : x.Yields fun result => result? = some result := by
  intro result heq
  rw [h] at heq
  exact orRejected_eq_ok_iff.mp heq

theorem yields_both {x : Elaboration α} {y : Elaboration β} :
    (both x y).Yields fun results => x.outcome = .ok results.1 ∧ y.outcome = .ok results.2 := by
  intro results h
  unfold both at h
  cases hx : x.outcome with
  | ok first =>
      cases hy : y.outcome with
      | ok second =>
          simp only [hx, hy, Except.map] at h
          cases h
          exact ⟨rfl, rfl⟩
      | error stop => simp [hx, hy, Except.map] at h
  | error stop =>
      cases stop with
      | violation v => simp [hx] at h
      | rejected => cases hy : y.outcome with
          | ok second => simp [hx, hy] at h
          | error stop => cases stop <;> simp [hx, hy] at h

end VerilogExpr.Elaboration
