import Roster.Data.Tree
import Roster.Elementary
import Roster.Query.Priority
import Roster.Query.Random
import Roster.Time.Duration

/-!
# Pacing

How long a client is told to wait before it asks again. The wait is drawn from an exponential
distribution whose mean depends on the client's priority and grows with the load of the server.
-/

namespace Roster

/-- The longest wait or window that may be configured, ten years in seconds. -/
def longestSetting : Nat := 315360000

/-- How long clients are sent away for. The means are in seconds. -/
structure Pacing where
  highAvailabilityMean : Float := 60.0
  bestEffortMean : Float := 300.0
  globalMean : Float := 600.0
  /-- by how much the mean grows when the server is fully used -/
  loadScaling : Float := 4.0
  /-- the length of the window in which the next request is expected -/
  validitySeconds : Nat := 600
  /-- the longest wait, if there is one -/
  maxWaitSeconds : Option Nat := none

namespace Pacing

/-- The names of the settings in the order in which they are written. -/
def fieldNames : List String :=
  ["high_availability_mean_secs", "api_key_best_effort_mean_secs", "global_best_effort_mean_secs",
    "load_scaling", "validity_window_secs", "max_interval_secs"]

/-- Reads the settings, where `float` reads a number; each that is absent has its standard value. -/
def ofTreeWith? {σ : Type} [ReadScalar σ] (float : Tree σ → Option Float) (t : Tree σ) :
    Option Pacing := do
  match ← t.record? fieldNames with
  | [high, best, global, scaling, validity, max] =>
    let standard : Pacing := {}
    pure {
      highAvailabilityMean := ← Tree.withDefault standard.highAvailabilityMean float high
      bestEffortMean := ← Tree.withDefault standard.bestEffortMean float best
      globalMean := ← Tree.withDefault standard.globalMean float global
      loadScaling := ← Tree.withDefault standard.loadScaling float scaling
      validitySeconds := ← Tree.withDefault standard.validitySeconds (Tree.natBelow? 64) validity
      maxWaitSeconds := ← Tree.optional (Tree.natBelow? 64) max }
  | _ => none

/-- The settings from their section, whose numbers are read as any number is. -/
def ofTree? {σ : Type} [ReadScalar σ] (t : Tree σ) : Option Pacing :=
  ofTreeWith? Tree.float? t

/-- The mean wait of a class on an idle server, in seconds. -/
def baseMean (p : Pacing) : Priority → Float
  | .highAvailability => p.highAvailabilityMean
  | .bestEffort => p.bestEffortMean
  | .global => p.globalMean

/-! ## Validation -/

/-- What is wrong with the settings. -/
inductive Fault where
  | mean (priority : Priority)
  | meansOutOfOrder
  | loadScaling
  | validityWindow
  | maxWait
  deriving DecidableEq, Repr

/-- The name of the setting for the mean of a class. -/
def settingName : Priority → String
  | .highAvailability => "high_availability_mean_secs"
  | .bestEffort => "api_key_best_effort_mean_secs"
  | .global => "global_best_effort_mean_secs"

/-- What is said about the settings. -/
def Fault.message : Fault → String
  | .mean priority => settingName priority ++ " must be between 0 and 315360000 seconds"
  | .meansOutOfOrder => "mean waits must not decrease with priority"
  | .loadScaling => "load_scaling must be a non-negative number"
  | .validityWindow => "validity_window_secs must be between 1 and 315360000"
  | .maxWait => "max_interval_secs must be between 1 and 315360000"

/-- Whether a mean is a positive number of at most ten years. -/
def meanFits (x : Float) : Bool :=
  x.isFinite && 0.0 < x && x ≤ longestSetting.toUInt64.toFloat

/-- Whether a number of seconds is positive and at most ten years. -/
def secondsFit (n : Nat) : Bool :=
  0 < n && n ≤ longestSetting

/-- The first fault of the settings, in the order in which they are looked for. -/
def fault? (p : Pacing) : Option Fault :=
  match Priority.all.find? fun c => !meanFits (p.baseMean c) with
  | some c => some (.mean c)
  | none =>
    if p.highAvailabilityMean > p.bestEffortMean || p.bestEffortMean > p.globalMean then
      some .meansOutOfOrder
    else if !(p.loadScaling.isFinite && 0.0 ≤ p.loadScaling) then some .loadScaling
    else if !secondsFit p.validitySeconds then some .validityWindow
    else if !(p.maxWaitSeconds.all secondsFit) then some .maxWait
    else none

/-! ## Waits -/

/-- A utilization between zero and one; one that is no finite number counts as full. -/
def clampUtilization (u : Float) : Float :=
  if u.isFinite then
    if u < 0.0 then 0.0 else if 1.0 < u then 1.0 else u
  else 1.0

/-- The mean wait of a class under a utilization, in seconds. -/
def meanSeconds (p : Pacing) (c : Priority) (utilization : Float) : Float :=
  p.baseMean c * (1.0 + p.loadScaling * clampUtilization utilization)

/-- The mean wait of a class under a load. -/
def mean (p : Pacing) (c : Priority) (utilization : Float) : Duration :=
  .ofFloat (p.meanSeconds c utilization)

/-- The wait that a number `x` of `[0, 1)` stands for, in seconds: the point below which the
    distribution lies with probability `x`, and at most the longest wait. -/
def waitSeconds (m : Elementary) (p : Pacing) (c : Priority) (utilization x : Float) : Float :=
  let seconds := -p.meanSeconds c utilization * m.ln (1.0 - x)
  match p.maxWaitSeconds with
  | some max => smaller seconds max.toUInt64.toFloat
  | none => seconds

/-- The wait for a number that was drawn. -/
def wait (m : Elementary) (p : Pacing) (c : Priority) (utilization x : Float) : Duration :=
  .ofFloat (p.waitSeconds m c utilization x)

/-- A wait drawn at random, which takes one word. -/
def draw (m : Elementary) (p : Pacing) (c : Priority) (utilization : Float) (d : Dice) :
    Duration × Dice :=
  let (x, d) := d.nextUnit
  (p.wait m c utilization x, d)

end Pacing

end Roster
