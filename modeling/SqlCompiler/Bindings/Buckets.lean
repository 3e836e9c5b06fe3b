import SqlCompiler.Value

/-!
# Buckets of Bindings

The bound values of a query, kept apart by the clause that they belong to. A statement puts the
buckets in the order in which it writes the clauses.

## Main definitions

- `Bucket`: the clauses that bind values
- `Buckets`: the values of every bucket
- `Buckets.extend`, `Buckets.push`: values added to a bucket; raw expressions are never bound
- `Buckets.flatten`, `Buckets.flattenOnly`, `Buckets.flattenExcept`: the values in a row
- `Buckets.around`: assigned values between two groups of buckets
-/

namespace SqlCompiler

/-- A clause that binds values. -/
inductive Bucket where
  | select
  | source
  | join
  | wheres
  | groupBy
  | having
  | order
  | union
  | unionOrder
deriving DecidableEq, Repr

namespace Bucket

/-- All buckets in the order of a select. -/
def all : List Bucket :=
  [.select, .source, .join, .wheres, .groupBy, .having, .order, .union, .unionOrder]

/-- The buckets that a select writes after its select list. -/
def afterSelectList : List Bucket :=
  [.source, .join, .wheres, .groupBy, .having, .order, .union, .unionOrder]

end Bucket

/-- The bound values of a query by clause. -/
structure Buckets where
  select : List Value := []
  source : List Value := []
  join : List Value := []
  wheres : List Value := []
  groupBy : List Value := []
  having : List Value := []
  order : List Value := []
  union : List Value := []
  unionOrder : List Value := []

namespace Buckets

/-- The values of a bucket. -/
def get (b : Buckets) : Bucket → List Value
  | .select => b.select
  | .source => b.source
  | .join => b.join
  | .wheres => b.wheres
  | .groupBy => b.groupBy
  | .having => b.having
  | .order => b.order
  | .union => b.union
  | .unionOrder => b.unionOrder

/-- A bucket with other values. -/
def put (b : Buckets) (bucket : Bucket) (values : List Value) : Buckets :=
  match bucket with
  | .select => { b with select := values }
  | .source => { b with source := values }
  | .join => { b with join := values }
  | .wheres => { b with wheres := values }
  | .groupBy => { b with groupBy := values }
  | .having => { b with having := values }
  | .order => { b with order := values }
  | .union => { b with union := values }
  | .unionOrder => { b with unionOrder := values }

/-- A bucket with further values at its end, raw expressions left out. -/
def extend (b : Buckets) (bucket : Bucket) (values : List Value) : Buckets :=
  b.put bucket (b.get bucket ++ bound values)

/-- A bucket with one further value at its end, unless it is a raw expression. -/
def push (b : Buckets) (bucket : Bucket) (value : Value) : Buckets :=
  b.extend bucket [value]

/-- Whether no bucket holds a value. -/
def isEmpty (b : Buckets) : Bool :=
  Bucket.all.all fun bucket => (b.get bucket).isEmpty

/-- The values of given buckets, in the order given. -/
def flattenOnly (b : Buckets) (buckets : List Bucket) : List Value :=
  buckets.flatMap b.get

/-- The values of all buckets but the given ones, in the order of a select. -/
def flattenExcept (b : Buckets) (excluded : List Bucket) : List Value :=
  b.flattenOnly (Bucket.all.filter fun bucket => !excluded.contains bucket)

/-- The values of all buckets, in the order of a select. -/
def flatten (b : Buckets) : List Value :=
  b.flattenOnly Bucket.all

/-- Assigned values between the buckets that an update writes before and after them. -/
def around (b : Buckets) (before : List Bucket) (values : List Value) (after : List Bucket) :
    List Value :=
  b.flattenOnly before ++ bound values ++ b.flattenOnly after

theorem get_put (b : Buckets) (bucket other : Bucket) (values : List Value) :
    (b.put bucket values).get other = if other = bucket then values else b.get other := by
  cases bucket <;> cases other <;> rfl

theorem get_extend (b : Buckets) (bucket other : Bucket) (values : List Value) :
    (b.extend bucket values).get other =
      if other = bucket then b.get bucket ++ bound values else b.get other := by
  rw [extend, get_put]

end Buckets

end SqlCompiler
