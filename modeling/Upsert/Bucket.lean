/-! # Buckets

A bucket is one output of a batch. An update bucket belongs to an existing file group, and takes
inserts that top up a small file as well; an insert bucket opens a new file group, whose id begins
with the fresh id of the bucket.
-/

namespace Upsert

/-- An output of a batch, in a partition. -/
inductive Bucket where
  | update (fileId partition : String)
  | insert (freshId partition : String)
deriving DecidableEq

namespace Bucket

/-- The name of the kind of bucket. -/
def kind : Bucket → String
  | .update .. => "Update"
  | .insert .. => "Insert"

/-- The file group of an update bucket, the fresh id of an insert bucket. -/
def fileId : Bucket → String
  | .update fileId _ => fileId
  | .insert freshId _ => freshId

/-- The partition that the bucket is written to. -/
def partition : Bucket → String
  | .update _ partition => partition
  | .insert _ partition => partition

/-- The text of a bucket. -/
def text (bucket : Bucket) : String :=
  "BucketInfo \x7b bucket_type=" ++ bucket.kind ++ ", file_id=" ++ bucket.fileId ++
    ", partition_path=" ++ bucket.partition ++ " \x7d"

end Bucket

end Upsert
