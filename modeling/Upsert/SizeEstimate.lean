import Upsert.Binary64.Arithmetic
import Upsert.Fault
import Upsert.Timeline

/-! # The average size of a record

The size is estimated from the commits, newest first: the first commit that wrote more bytes than a
threshold and at least one record decides, and its bytes over its records, rounded up, is the
estimate. Details that cannot be read end the search with a failure that is kept beside the
fallback; without a deciding commit the fallback is taken too. The estimate itself never fails.
-/

namespace Upsert

/-- Where an estimate comes from. -/
inductive EstimateSource where
  | commit (instant : Instant)
  | fallback
deriving DecidableEq

/-- An estimate, and the failure that ended the search for it, if one did. -/
structure SizeEstimate where
  bytesPerRecord : UInt64
  source : EstimateSource
  failure : Option TimelineError
deriving DecidableEq

/-- How to estimate: the size to fall back on, and the bytes a deciding commit must exceed. -/
structure SizeEstimator where
  fallback : UInt64
  threshold : UInt64
deriving DecidableEq

namespace SizeEstimator

/-- The estimator whose threshold is the whole part of a fraction of `limit` bytes. -/
def ofFraction (fallback : UInt64) (fraction : Binary64) (limit : UInt64) : SizeEstimator :=
  ⟨fallback, (fraction * Binary64.ofNat limit.toNat).toWord⟩

/-- The commit decides the estimate. -/
def decides (estimator : SizeEstimator) (details : CommitDetails) : Bool :=
  decide (estimator.threshold < details.bytes) && decide (0 < details.records)

/-- The estimate from commits, newest first, and the number of commits that were looked at. -/
def search (estimator : SizeEstimator) : List Timeline.Entry → SizeEstimate × Nat
  | [] => (⟨estimator.fallback, .fallback, none⟩, 0)
  | (_, .error failure) :: _ => (⟨estimator.fallback, .fallback, some failure⟩, 1)
  | (instant, .ok details) :: older =>
    if estimator.decides details then
      (⟨ceilDiv details.bytes details.records, .commit instant, none⟩, 1)
    else
      let (estimate, looked) := estimator.search older
      (estimate, looked + 1)

/-- The estimate from commits, newest first. -/
def estimateFrom (estimator : SizeEstimator) (commits : List Timeline.Entry) : SizeEstimate :=
  (estimator.search commits).1

/-- The estimate from a timeline. -/
def estimate (estimator : SizeEstimator) (timeline : Timeline) : SizeEstimate :=
  estimator.estimateFrom timeline.newestFirst

end SizeEstimator

end Upsert
