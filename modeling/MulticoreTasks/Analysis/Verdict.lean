import MulticoreTasks.Analysis.Consistency

/-!
# The verdict on an application

What the stages found rejects an application, all of it together.  If they found nothing, the waits
are worked out, and the first contradiction between the result and the application rejects it alone.
What is left is accepted, and its analysis is the answer.

* `Stages.judge` : the verdict on outputs of the stages;
* `analyze`      : the analysis of an application under given limits, or why it is rejected.
-/

namespace MulticoreTasks

/-- Judge the outputs of the stages. -/
def Stages.judge (s : Stages) (app : App) : Audited (Except Rejection Analysis) :=
  match s.findings with
  | [] => do
    let waits ← s.waits app
    let analysis := Analysis.ofStages app s waits
    match (analysis.faults app).head? with
    | some fault => pure (.error (.inconsistent fault))
    | none => do
      Audited.ensure .analysisConsistent true
      pure (.ok analysis)
  | findings => do
    Audited.ensure .diagnosticsBatched (findings ≠ [])
    pure (.error (.diagnostics findings))

/-- Analyse an application. -/
def analyze (limits : Limits) (app : App) : Audited (Except Rejection Analysis) := do
  let stages ← Stages.run limits app
  stages.judge app

end MulticoreTasks
