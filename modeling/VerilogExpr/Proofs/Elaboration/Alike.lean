import VerilogExpr.Proofs.Elaboration.Outcomes

/-!
# Steps that differ in minor reports

Two steps are alike from some severity on if they have the same outcome and report the same from
that severity on.  What they report below it may be anything, as long as reporting it goes well.
-/

namespace VerilogExpr.Elaboration

variable {α β : Type} {least : Severity} {x y : Elaboration α}

/-- Two steps with the same outcome, which report the same from the given severity on. -/
structure Alike (least : Severity) (x y : Elaboration α) : Prop where
  outcome_eq : y.outcome = x.outcome
  reported_eq : y.reported least = x.reported least

theorem Alike.refl (x : Elaboration α) : x.Alike least x := ⟨rfl, rfl⟩

/-- Steps that go on alike from the same result are alike as a whole. -/
theorem Alike.bind {next next' : α → Elaboration β} (h : x.Alike least y)
    (hnext : ∀ result, x.outcome = .ok result → (next result).Alike least (next' result)) :
    (x >>= next).Alike least (y >>= next') := by
  have hfirst := h.reported_eq
  unfold reported at hfirst
  cases houtcome : x.outcome with
  | error stop =>
      rw [bind_of_error houtcome, bind_of_error (h.outcome_eq.trans houtcome)]
      exact ⟨rfl, h.reported_eq⟩
  | ok result =>
      have hrest := hnext result houtcome
      have hsecond := hrest.reported_eq
      unfold reported at hsecond
      rw [bind_of_ok houtcome, bind_of_ok (h.outcome_eq.trans houtcome)]
      refine ⟨hrest.outcome_eq, ?_⟩
      simp only [reported, List.filter_append, hfirst, hsecond]

theorem Alike.both {x' y' : Elaboration β} (h : x.Alike least y) (h' : x'.Alike least y') :
    (both x x').Alike least (both y y') := by
  have hfirst := h.reported_eq
  have hsecond := h'.reported_eq
  unfold reported at hfirst hsecond
  unfold Elaboration.both
  rw [h.outcome_eq, h'.outcome_eq]
  cases x.outcome with
  | ok result =>
      refine ⟨rfl, ?_⟩
      simp only [reported, List.filter_append, hfirst, hsecond]
  | error stop =>
      cases stop with
      | violation v => exact ⟨rfl, h.reported_eq⟩
      | rejected =>
          refine ⟨rfl, ?_⟩
          simp only [reported, List.filter_append, hfirst, hsecond]

structure Quiet (least : Severity) (x : Elaboration Unit) : Prop where
  outcome_eq : x.outcome = .ok ()
  reported_eq : x.reported least = []

theorem quiet_pure : (pure () : Elaboration Unit).Quiet least := ⟨rfl, rfl⟩

theorem quiet_report {d : Diagnostic} (h : d.severity.rank < least.rank) :
    (report d).Quiet least := by
  refine ⟨rfl, List.filter_eq_nil_iff.mpr fun other hmem => ?_⟩
  rw [List.mem_singleton.mp hmem]
  simpa using h

/-- Looking up what to report goes well. -/
theorem Quiet.of_lookup {demand : Except Violation α} {result : α}
    {next : α → Elaboration Unit} (hdemand : demand = .ok result)
    (h : (next result).Quiet least) : ((monadLift demand : Elaboration α) >>= next).Quiet least := by
  subst hdemand
  have houtcome : (monadLift (.ok result : Except Violation α) : Elaboration α).outcome =
      .ok result := rfl
  rw [bind_of_ok houtcome]
  exact ⟨h.outcome_eq, h.reported_eq⟩

end VerilogExpr.Elaboration
