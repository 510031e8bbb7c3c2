import Loyalty.Interval
import Loyalty.Report
import Loyalty.Value.Text

/-!
# The scheduler of reloads

A job reloads one rule set at an interval. All jobs have the same id, so a job
that is added takes the place of the one before. A job is asked for with any
value as its seconds; it is planned only if they are an interval, and its first
run, one interval from now, lies in the calendar. Jobs that are being run cannot be
started once more. A recorder in the place of a scheduler takes every job as it is
asked for, and every start.
-/

namespace Loyalty

/-- A reload at an interval. -/
structure Job where
  seconds : Value
  name : RuleSetName

/-- The jobs added so far, and whether they are being run. -/
structure Scheduler where
  added : List Job
  running : Bool
  /-- Whether the jobs are only recorded, and neither planned nor run. -/
  isRecorder : Bool

namespace Job

/-- The id of every job. -/
def id : String := "rules:reload"

/-- The name of a job's rule set as a value. -/
def nameValue (job : Job) : Value := (job.name.map Value.text).getD .null

/-- A job as it is asked for. -/
def toValue (job : Job) : Value :=
  .object [("trigger", .text "interval"), ("seconds", job.seconds), ("id", .text id),
    ("name", job.nameValue), ("replace_existing", .bool true), ("func", .text "reload_rules")]

end Job

/-- A job with the interval at which it runs. -/
structure PlannedJob where
  job : Job
  interval : Interval

/-- A job as it is planned from some time on. -/
def Job.plan (now : Instant) (job : Job) : Except Fault PlannedJob := do
  let interval := (← job.seconds.interval).orSecond
  match interval.after? now with
  | some _ => return ⟨job, interval⟩
  | none => .error .momentOutOfRange

/-- A job as it is planned: runs that were missed are made up for by one, there is
one run at a time, and times are those of UTC. -/
def PlannedJob.toValue (planned : PlannedJob) : Value :=
  .object [("id", .text Job.id), ("seconds", .int planned.interval.wholeSeconds),
    ("coalesce", .bool true), ("max_instances", .nat 1), ("name", planned.job.nameValue),
    ("timezone", .text "UTC")]

namespace Scheduler

/-- No jobs, not running. -/
def empty : Scheduler := ⟨[], false, false⟩

/-- A recorder of jobs. -/
def recorder : Scheduler := ⟨[], false, true⟩

/-- Adds a job, which has to have a plan from some time on unless it is only
recorded. -/
def schedule (now : Instant) (job : Job) : Action Scheduler Unit := do
  if (← Action.get).isRecorder then pure ()
  else
    let _ ← Action.ofExcept (job.plan now)
  Action.modify fun s => { s with added := s.added ++ [job] }
  Action.note (.reloadScheduled (← Action.ofExcept job.seconds.display) job.name)

/-- Starts to run the jobs, unless they are being run already. -/
def start : Action Scheduler Unit := do
  let s ← Action.get
  if s.running && !s.isRecorder then Action.fail .alreadyRunning
  else
    Action.modify fun s => { s with running := true }
    Action.note .schedulerStarted

/-- Stops to run the jobs if they are being run. -/
def stop : Action Scheduler Unit := do
  if (← Action.get).running then
    Action.modify fun s => { s with running := false }
    Action.note .schedulerStopped

end Scheduler

end Loyalty
