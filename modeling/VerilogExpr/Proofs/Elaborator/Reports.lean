import VerilogExpr.Elaborator
import VerilogExpr.Proofs.Arena.Text
import VerilogExpr.Proofs.Elaboration.Alike
import VerilogExpr.Proofs.Elaboration.Protocol

/-!
# Reports that options ask for

A report writes an expression as text and adds a note.  It rejects nothing and is no error.  Where
the expression exists, in an arena whose operands are in order, it also goes well.
-/

namespace VerilogExpr.Elaborator

open Elaboration

variable {e : Elaborator} {id : ExprId} {least : Severity}

theorem silent_reportContext (id : ExprId) (required : DataType) :
    (e.reportContext id required).Silent := by
  unfold reportContext
  split
  · exact (silent_monadLift _).bind fun _ => silent_report rfl
  · exact silent_pure ()

theorem silent_reportType (arena : Arena) (id : ExprId) : (e.reportType arena id).Silent := by
  unfold reportType
  split
  · exact (silent_monadLift _).bind fun _ => (silent_monadLift _).bind fun _ => silent_report rfl
  · exact silent_pure ()

theorem silent_reportValue (id : ExprId) (v : Value) : (e.reportValue id v).Silent := by
  unfold reportValue
  split
  · exact (silent_monadLift _).bind fun _ => silent_report rfl
  · exact silent_pure ()

theorem checks_reportValue (id : ExprId) (v : Value) : (e.reportValue id v).Checks := by
  unfold reportValue
  split
  · exact (checks_monadLift _).bind fun _ => checks_report rfl
  · exact checks_pure ()

/-! ### Reports of what exists -/

theorem quiet_reportValue (h : e.arena.Ordered) (hid : id < e.arena.size)
    (hleast : Severity.note.rank < least.rank) (v : Value) : (e.reportValue id v).Quiet least := by
  unfold reportValue
  split
  · obtain ⟨s, hs⟩ := h.exists_text hid
    exact .of_lookup hs (quiet_report hleast)
  · exact quiet_pure

theorem quiet_reportContext (h : e.arena.Ordered) (hid : id < e.arena.size)
    (hleast : Severity.note.rank < least.rank) (required : DataType) :
    (e.reportContext id required).Quiet least := by
  unfold reportContext
  split
  · obtain ⟨s, hs⟩ := h.exists_text hid
    exact .of_lookup hs (quiet_report hleast)
  · exact quiet_pure

theorem quiet_reportType {arena : Arena} (h : arena.Ordered) (hid : id < arena.size)
    (hleast : Severity.note.rank < least.rank) : (e.reportType arena id).Quiet least := by
  unfold reportType
  split
  · obtain ⟨s, hs⟩ := h.exists_text hid
    have htype : arena.type id = .ok (arena.typeAt id) := Arena.type_eq_ok_iff.mpr ⟨hid, rfl⟩
    exact .of_lookup hs (.of_lookup htype (quiet_report hleast))
  · exact quiet_pure

end VerilogExpr.Elaborator
