import Filewise.Pool

/-!
# Carrying out plans

Of all the orders in which the workers can take their steps, one is carried out:
the first worker works until there is nothing left to do, and each of the others
finds that out in turn.

## Main definitions

* `Pool.runWorker`, `Pool.run`.
* `Project.runPlan`, `Project.build`: the report of a build and what it leaves.
-/

namespace Filewise

namespace Pool

/-- Steps of one worker, as many as it can take or the given number. -/
def runWorker (c : BuildConfig) (units : List PlannedUnit) (worker : Nat) : Nat → Pool → Pool
  | 0, pool => pool
  | steps + 1, pool =>
    match pool.step? c units worker with
    | some next => runWorker c units worker steps next
    | none => pool

/-- More steps than a worker can take: at most nine for each unit, and two to find
that there are no more. -/
def enoughSteps (units : List PlannedUnit) : Nat := 10 * (units.length + 1)

/-- The work until all workers have finished. -/
def run (c : BuildConfig) (units : List PlannedUnit) (pool : Pool) : Pool :=
  (List.range pool.workers.length).foldl
    (fun pool worker => runWorker c units worker (enoughSteps units) pool) pool

end Pool

/-- The outcome of a build: the report, and what it leaves behind. -/
structure BuildResult where
  report : Report
  shared : Shared

namespace Project

/-- The report of finished work on a plan. -/
def report (p : Plan) (pool : Pool) (started finished : Instant) : Report :=
  let y := pool.tally
  Report.ofTally p.units.length y.transformed y.passthrough pool.shared.isHalted
    (p.errors ++ y.errors) started finished

/-- Carries out a plan. -/
def runPlan (project : Project) (p : Plan) (tree : Tree) (started finished : Instant) :
    BuildResult :=
  let pool := (Pool.start project.workers p tree).run project.config p.units
  ⟨report p pool started finished, pool.shared⟩

/-- Plans a build and carries it out. -/
def build [Schema.Compiler] (project : Project) (tree : Tree) (started finished : Instant) :
    BuildResult :=
  project.runPlan (project.plan tree) tree started finished

end Project

end Filewise
