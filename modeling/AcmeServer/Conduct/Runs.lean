import AcmeServer.Conduct.Worker
import AcmeServer.Safety.Routes

/-!
# Runs keep to the rule

Every call in the history of a run was made by a program of the server, so the rule allowed it after
the earlier exchanges of its thread. `run_keeps` is the induction for invariants that rest on the
rule: besides the invariant of the contract and the permission, each step may use what the rule says
about the call.
-/

namespace AcmeServer

open Interaction Memstore Protocol

/-- When a program of the server may make a call, whoever its client is. -/
def Conducted (s : Server) (log : CallLog) (call : Call) : Prop :=
  ∃ client, Conduct s client log call

/-- Every program of the server keeps to the rule. -/
theorem program_follows (s : Server) (start : Server.Start) :
    (s.program start).Follows (Conducted s) (fun _ _ => True) [] := by
  cases start with
  | request r => exact (serve_http_follows s r).relax fun _ _ h => ⟨r.client, h⟩
  | worker => exact (worker_turn_follows s "").relax fun _ _ h => ⟨"", h⟩

/-- Every call in the history was allowed when it was made. -/
def HistoryConducted (s : Server) (w : World) : Prop :=
  ∀ {e : Event} {earlier : List Event}, e :: earlier <:+ w.history →
    Conducted s (threadLog e.thread (earlier.map Event.entry)) e.call

theorem run_conducted (s : Server) (schedule : Server.Schedule) :
    HistoryConducted s (s.run schedule) := by
  intro e earlier hsuffix
  have hfollowed : Followed (Conducted s) World.entries (s.config schedule) :=
    run_follows execute_records rfl (program_follows s) schedule
  exact hfollowed.allowed (hsuffix.map Event.entry)

/-- What every permitted call that the rule allows keeps true of the store is true in every run. -/
theorem run_keeps {s : Server} {P : Store → Prop} (hinitial : P Store.new)
    (hstep : ∀ {w w' : World} {thread : Nat} {log : CallLog} {call : Call} {answer : call.Answer},
      Invariant s w → Permitted s w thread call → Conducted s log call →
        Executed w thread call answer w' → P w.store → P w'.store)
    (schedule : Server.Schedule) : P (s.run schedule).store := by
  have hlater : s.contract.Later World.initial (s.run schedule) := Safety.run_progress s [] schedule
  refine hlater.stable (P := fun w => HistoryConducted s w → P w.store) ?_ (fun _ => hinitial)
    (run_conducted s schedule)
  intro env thread call answer w w' hinv hpermitted hexecute hP hconducted
  have hexecuted := executed_of_execute hexecute
  have hlast : ⟨thread, w.store, call, answer⟩ :: w.history <:+ w'.history :=
    ⟨[], hexecuted.history_eq.symm⟩
  have hcall : Conducted s (threadLog thread (w.history.map Event.entry)) call := hconducted hlast
  refine hstep hinv hpermitted hcall hexecuted (hP fun {e earlier} hsuffix => ?_)
  exact hconducted ((hsuffix.trans (List.suffix_cons _ _)).trans hlast)

end AcmeServer
