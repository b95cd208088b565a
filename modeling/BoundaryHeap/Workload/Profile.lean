/-!
The shapes of generated workloads.
-/

namespace BoundaryHeap.Workload

/-- The shape of a workload. -/
inductive Profile where
  /-- Allocations, releases and resizes in random order. -/
  | churn
  /-- Waves of growing allocations, most of each released together. -/
  | sawtooth
  /-- A few blocks that grow step by step among short-lived small ones. -/
  | reallocGrowth
  /-- Small and large blocks in turn; the large ones are released and asked for again a little
  larger, so that the holes are of no use. -/
  | binary
  deriving Repr, DecidableEq

namespace Profile

/-- The name of a profile. -/
def name : Profile → String
  | churn => "churn"
  | sawtooth => "sawtooth"
  | reallocGrowth => "realloc-growth"
  | binary => "binary"

/-- The profile of a name, in any mix of cases and with dashes or underscores. -/
def ofName? (name : String) : Option Profile :=
  match name.toLower.map fun c => if c = '_' then '-' else c with
  | "churn" => some churn
  | "random" => some churn
  | "sawtooth" => some sawtooth
  | "realloc-growth" => some reallocGrowth
  | "realloc" => some reallocGrowth
  | "binary" => some binary
  | _ => none

end Profile

end BoundaryHeap.Workload
