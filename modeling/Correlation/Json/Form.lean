import Correlation.Json.Basic

/-!
# Forms

What a reader of a text expects to find.  A *shape* says where the parts of a value stand and what
is to be found there.  A *form* is a shape with a judge, who says what is wrong with a value of the
shape, or else it is that nobody asks for the value.

With the form at hand a text is judged while it is read, and so the first thing that is wrong with
it is the one that is reported.

The form also decides how strictly a text is read.  A value that nobody asks for is only passed
over: its numbers may be too large and its strings need not be texts.
-/

namespace Correlation

namespace Json

/-- What is to be found in a text, with forms of the type `φ` for the parts. -/
inductive Shape (φ : Type) where
  | any
  /-- A value that is neither a list nor an object. -/
  | scalar
  | list (item : φ)
  /-- An object with some of these fields, or the list of them in their order.  Other fields are
  passed over. -/
  | record (fields : List (String × φ))
  /-- A name, or an object with one of these fields. -/
  | name (values : List (String × φ))
  /-- An object with a field of this name, or a list that begins with the value of that field. -/
  | tagged (tag : String) (kind : φ)

/-- What a reader of a text expects to find.  What is wrong with a value is of the type `ε`. -/
inductive Form (ε : Type) where
  /-- A value that nobody asks for. -/
  | skipped
  /-- A value of a shape.  The judge says what is wrong with it. -/
  | judged (shape : Shape (Form ε)) (judge : Json → Option ε)

namespace Form

/-- The form of all values. -/
def any : Form ε := .judged .any fun _ => none

/-- What a reader has against a value. -/
def objectionOf (read : Json → Except ε α) (j : Json) : Option ε :=
  match read j with
  | .ok _ => none
  | .error e => some e

/-- The form of the values of a shape that can be read. -/
def of (shape : Shape (Form ε)) (read : Json → Except ε α) : Form ε :=
  .judged shape (objectionOf read)

/-- Whether nobody asks for a value. -/
def isSkipped : Form ε → Bool
  | .skipped => true
  | .judged _ _ => false

/-- Whether a value is a name. -/
def isName : Form ε → Bool
  | .judged (.name _) _ => true
  | _ => false

/-- What is wrong with a complete value.  A list of items in their form is in its own. -/
def objection? : Form ε → Json → Option ε
  | .skipped, _ => none
  | .judged (.list _) _, .array _ => none
  | .judged _ judge, j => judge j

/-- What is left of a complete value. -/
def kept : Form ε → Json → Json
  | .skipped, _ => .null
  | .judged _ _, j => j

/-! ## Lists -/

/-- What is wrong with a list, whatever its items are. -/
def listObjection? : Form ε → Option ε
  | .judged .scalar judge => judge (.array [])
  | _ => none

/-- The form of the item after some others, which are given newest first.  There is none after the
last field of a record. -/
def item? : Form ε → List Json → Option (Form ε)
  | .skipped, _ => some .skipped
  | .judged (.list item) _, _ => some item
  | .judged (.record fields) _, items => (fields[items.length]?).map Prod.snd
  | .judged (.tagged _ kind) _, [] => some kind
  | _, _ => some .any

/-! ## Objects -/

/-- What is wrong with an object, whatever its fields are. -/
def objectObjection? : Form ε → Option ε
  | .judged .scalar judge => judge (.object [])
  | .judged (.list _) judge => judge (.object [])
  | _ => none

/-- The form of the value of a field. -/
def field : Form ε → String → Form ε
  | .skipped, _ => .skipped
  | .judged (.record fields) _, key => (fields.lookup key).getD .skipped
  | .judged (.name values) _, key => (values.lookup key).getD .any
  | .judged (.tagged tag kind) _, key => if key = tag then kind else .any
  | _, _ => .any

/-- Whether a key is worth a look before its value is read: it is there already, or it is no
name. -/
def suspects (f : Form ε) (fields : List (String × Json)) (key : String) : Bool :=
  let present := fields.any fun field => decide (field.1 = key)
  match f with
  | .judged (.record known) _ => (known.lookup key).isSome && present
  | .judged (.name known) _ => (known.lookup key).isNone
  | .judged (.tagged tag _) _ => decide (key = tag) && present
  | _ => false

/-- What is wrong with a key after some fields, which are given newest first. -/
def keyObjection? (f : Form ε) (fields : List (String × Json)) (key : String) : Option ε :=
  if f.suspects fields key then f.objection? (.object ((key, .null) :: fields).reverse) else none

end Form

end Json

end Correlation
