import CompactWire.Pool

/-!
# CompactWire.Pool.Metrics — the counters of a pool as text

Every metric has a line of help and a line that gives its kind.  A metric that is counted for each size class has a line
for every class in which it has ever changed; the requests above the greatest size always have one.  Counters carry the
ending `_total` behind their name.  The lines are sorted.
-/

namespace CompactWire.Pool

/-- A metric: its name and what it tells. -/
structure Metric where
  name : String
  help : String
  counter : Bool

/-- The lines that describe a metric. -/
def Metric.description (m : Metric) : List String :=
  [s!"# HELP {m.name} {m.help}.", s!"# TYPE {m.name} {kind}"]
where
  kind := if m.counter then "counter" else "gauge"

/-- The name that stands before the values of a metric. -/
def Metric.sample (m : Metric) : String := if m.counter then m.name ++ "_total" else m.name

/-- A metric that is counted for each size class, and its value in a class if it has ever changed there. -/
def classMetrics : List (Metric × (SizeClass → Option Nat)) :=
  [ (⟨"buffer_pool_allocated", "Number of buffers currently allocated from the pool", false⟩,
      fun s => s.allocatedGauge),
    (⟨"buffer_pool_available", "Number of buffers available in the pool", false⟩,
      fun s => s.available),
    (⟨"buffer_pool_allocations_total", "Total number of successful buffer allocations", true⟩,
      fun s => if s.allocations = 0 then none else some s.allocations),
    (⟨"buffer_pool_exhausted_total", "Total number of failed allocations due to pool exhaustion", true⟩,
      fun s => if s.exhausted = 0 then none else some s.exhausted) ]

/-- The metric that counts the requests above the greatest size. -/
def oversizedMetric : Metric :=
  ⟨"buffer_pool_oversized_total", "Total number of allocation requests exceeding max buffer size", true⟩

/-- The lines with values. -/
def samples (p : Pool) : List String :=
  let perClass := classMetrics.flatMap fun (metric, value) =>
    p.classes.filterMap fun s =>
      (value s).map fun n => s!"{metric.sample}\x7bsize_class=\"{s.size}\"\x7d {n}"
  (s!"{oversizedMetric.sample} {p.oversized}" :: perClass).mergeSort

/-- All lines of the metrics. -/
def metrics (p : Pool) : List String :=
  let described := oversizedMetric :: classMetrics.map Prod.fst
  ("# EOF" :: described.flatMap Metric.description).mergeSort ++ p.samples

end CompactWire.Pool
