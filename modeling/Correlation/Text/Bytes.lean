/-!
# Bytes

Places in a text are counted in the bytes of its encoding, in which a character takes up one to
four of them.
-/

namespace Correlation

/-- The bytes that characters take up. -/
def bytes (text : List Char) : Nat := text.foldr (fun c n => c.utf8Size + n) 0

@[simp] theorem bytes_nil : bytes [] = 0 := rfl

@[simp] theorem bytes_cons (c : Char) (text : List Char) :
    bytes (c :: text) = c.utf8Size + bytes text := rfl

@[simp] theorem bytes_append (s t : List Char) : bytes (s ++ t) = bytes s + bytes t := by
  induction s with
  | nil => simp
  | cons c s ih => rw [List.cons_append, bytes_cons, ih, bytes_cons, Nat.add_assoc]

end Correlation
