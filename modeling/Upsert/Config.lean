import Upsert.Binary64.Arithmetic
import Upsert.Binary64.Bits
import Upsert.Plan.Sizing
import Upsert.SizeEstimate

/-! # Configuration

The sizes, the record-size estimate and the number of scanning threads of a partitioner. A
configuration is checked before use, and the first value out of range, in the order of
`ConfigError`, is reported.
-/

namespace Upsert

/-- The settings of a partitioner. Sizes are in bytes. -/
structure Config where
  smallFileLimit : UInt64
  maxFileSize : UInt64
  insertSplitSize : UInt64
  autoTuneInsertSplits : Bool
  recordSizeEstimate : UInt64
  recordSizeEstimationThreshold : Binary64
  scanParallelism : UInt64
deriving DecidableEq

/-- A value out of range. -/
inductive ConfigError where
  | maxFileSize
  | insertSplitSize
  | recordSizeEstimate
  | recordSizeEstimationThreshold
  | scanParallelism
deriving DecidableEq

/-- The text of a value out of range. -/
def ConfigError.message (error : ConfigError) : String :=
  "invalid config: " ++
    match error with
    | .maxFileSize => "max_file_size must be > 0"
    | .insertSplitSize => "insert_split_size must be >= 1"
    | .recordSizeEstimate => "record_size_estimate must be >= 1"
    | .recordSizeEstimationThreshold =>
      "record_size_estimation_threshold must be finite and >= 0"
    | .scanParallelism => "scan_parallelism must be >= 1"

namespace Config

/-- Files below 100 MiB are small and are filled up to 120 MiB. -/
def default : Config where
  smallFileLimit := 104857600
  maxFileSize := 125829120
  insertSplitSize := 500000
  autoTuneInsertSplits := true
  recordSizeEstimate := 1024
  recordSizeEstimationThreshold := .ofNat 1
  scanParallelism := 4

instance : Inhabited Config := ⟨default⟩

/-- The first value out of range. -/
def firstError? (config : Config) : Option ConfigError :=
  if config.maxFileSize = 0 then some .maxFileSize
  else if config.insertSplitSize = 0 then some .insertSplitSize
  else if config.recordSizeEstimate = 0 then some .recordSizeEstimate
  else if !config.recordSizeEstimationThreshold.isFinite ||
      config.recordSizeEstimationThreshold.lt (.zero false) then
    some .recordSizeEstimationThreshold
  else if config.scanParallelism = 0 then some .scanParallelism
  else none

/-- Refuses a configuration with a value out of range. -/
def validate (config : Config) : Except ConfigError Unit :=
  match config.firstError? with
  | some error => .error error
  | none => .ok ()

/-- The same settings, the thresholds being compared as numbers. -/
def same (config other : Config) : Bool :=
  config.smallFileLimit == other.smallFileLimit &&
    config.maxFileSize == other.maxFileSize &&
    config.insertSplitSize == other.insertSplitSize &&
    config.autoTuneInsertSplits == other.autoTuneInsertSplits &&
    config.recordSizeEstimate == other.recordSizeEstimate &&
    config.recordSizeEstimationThreshold.same other.recordSizeEstimationThreshold &&
    config.scanParallelism == other.scanParallelism

/-- The sizes that a plan aims at. -/
def sizing (config : Config) : Sizing :=
  ⟨config.maxFileSize, config.insertSplitSize, config.autoTuneInsertSplits⟩

/-- The estimator of the average record size. -/
def estimator (config : Config) : SizeEstimator :=
  .ofFraction config.recordSizeEstimate config.recordSizeEstimationThreshold
    config.smallFileLimit

end Config

end Upsert
