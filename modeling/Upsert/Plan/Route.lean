import Upsert.KeyHash
import Upsert.Plan.Basic
import Upsert.Text.Quoted

/-! # Routing records

A record with a location goes to the update bucket of its file. A record without one goes to the
bucket of its partition's insert table that its key's place among the partition's inserts selects.
A record that the plan was not made for has no bucket.
-/

namespace Upsert

/-- Why a plan has no bucket for a record. -/
inductive RouteError where
  | unknownUpdateLocation (fileId : String)
  | noInsertBuckets (partition : String)
deriving DecidableEq

/-- The text of a routing error. -/
def RouteError.message : RouteError → String
  | .unknownUpdateLocation fileId => "no update bucket for file id " ++ fileId
  | .noInsertBuckets partition => "no insert buckets planned for partition " ++ partition

/-- A record that must have a bucket and has none. -/
structure Unrouted where
  key : String
  cause : RouteError
deriving DecidableEq

/-- The text of an unrouted record: its key in quotes, and the cause. -/
def Unrouted.message (failure : Unrouted) : String :=
  "routing record " ++ Text.quoted failure.key ++ ": " ++ failure.cause.message

namespace Plan

/-- The bucket of a place among a partition's inserts. -/
def selectBucket? (plan : Plan) (partition : String) (place : Binary64) : Option Nat :=
  (plan.insertTable? partition).bind fun table => table.select place

/-- The bucket of a record, by its key and location. -/
def route (plan : Plan) (key : RecordKey) (location : Option RecordLocation) :
    Except RouteError Nat :=
  match location with
  | some location =>
    match plan.updateBucket? location.fileId with
    | some bucket => .ok bucket
    | none => .error (.unknownUpdateLocation location.fileId)
  | none =>
    let place := keyFraction key.key (plan.partitionInserts key.partition)
    match plan.selectBucket? key.partition place with
    | some bucket => .ok bucket
    | none => .error (.noInsertBuckets key.partition)

/-- The bucket of a record of the batch that the plan was made for, which must have one. -/
def routeOwn (plan : Plan) (key : RecordKey) (location : Option RecordLocation) :
    Except Unrouted Nat :=
  match plan.route key location with
  | .ok bucket => .ok bucket
  | .error cause => .error ⟨key.key, cause⟩

end Plan

end Upsert
