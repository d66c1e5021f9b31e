import Correlation.Interchange.Mismatch

/-!
# Values made of fields

A value that is made of several fields is read field by field.  If several fields can not be read,
the one that stands first is to blame, in whichever order they are asked for.  So every field is
read, and a mistake goes with its place.

The applicative functor `Gathered` does that (`Gathered.seq`).
-/

namespace Correlation

/-- What has been read of several fields. -/
inductive Gathered (α : Type) where
  /-- All of them can be read. -/
  | value (a : α)
  /-- The first one that can not be read stands after so many others. -/
  | mistake (place : Nat) (reason : Mismatch)
deriving DecidableEq, Repr

namespace Gathered

/-- The value of a field that stands after so many others. -/
def ofExcept (place : Nat) : Except Mismatch α → Gathered α
  | .ok a => .value a
  | .error reason => .mistake place reason

/-- The value, or what is wrong with the first of the fields. -/
def toExcept : Gathered α → Except Mismatch α
  | .value a => .ok a
  | .mistake _ reason => .error reason

/-- The value, made into another one. -/
def map (f : α → β) : Gathered α → Gathered β
  | .value a => .value (f a)
  | .mistake place reason => .mistake place reason

/-- Two values put together.  Of two mistakes the one that stands first counts. -/
def seq (f : Gathered (α → β)) (a : Gathered α) : Gathered β :=
  match f, a with
  | .value f, .value a => .value (f a)
  | .value _, .mistake place reason => .mistake place reason
  | .mistake place reason, .value _ => .mistake place reason
  | .mistake place reason, .mistake place₂ reason₂ =>
    if place₂ < place then .mistake place₂ reason₂ else .mistake place reason

instance : Applicative Gathered where
  pure := .value
  map := map
  seq f a := f.seq (a ())

@[simp] theorem map_value (f : α → β) (a : α) : f <$> value a = value (f a) := rfl

@[simp] theorem value_seq_value (f : α → β) (a : α) : value f <*> value a = value (f a) := rfl

@[simp] theorem value_seqLeft_value (a : α) (b : β) : value a <* value b = value a := rfl

end Gathered

end Correlation
