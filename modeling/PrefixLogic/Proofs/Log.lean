import PrefixLogic.Proofs.Output
import PrefixLogic.Log

namespace PrefixLogic

namespace Log

variable {log : Log}

/-- What the log writes is no prompt and no report. -/
theorem exists_eq_logged {records : List Record} {output : Output}
    (houtput : output ∈ log.outputs records) : ∃ line, output = .logged line := by
  obtain ⟨line, -, rfl⟩ := List.mem_map.mp houtput
  exact ⟨line, rfl⟩

theorem filter_isReport_outputs (records : List Record) :
    (log.outputs records).filter Output.isReport = [] := by
  rw [List.filter_eq_nil_iff]
  intro output houtput
  obtain ⟨line, rfl⟩ := exists_eq_logged houtput
  exact Bool.false_ne_true

end Log

end PrefixLogic
