/-!
# Decimal digits

The value of a run of decimal digits, and the question whether a number written in digits is too
large for a double. Both are about lists of characters that hold digits alone.
-/

namespace NameAtlas.Text

/-- The value of decimal digits. -/
def decimalValue (ds : List Char) : Nat :=
  ds.foldl (fun n d => 10 * n + (d.toNat - '0'.toNat)) 0

/-- The least number that rounds beyond every double. -/
def doubleLimit : Nat := (Nat.pow 2 54 - 1) * Nat.pow 2 970

/-- True if digits, times `10 ^ up` and divided by `10 ^ down`, reach `doubleLimit`. The limit lies
between `10 ^ 308` and `10 ^ 309`, so the count of digits decides all but a few cases. -/
def exceedsDouble (digits : List Char) (up down : Nat) : Bool :=
  let digits := digits.dropWhile (· = '0')
  if digits.length + up ≤ 308 + down then false
  else if 310 + down < digits.length + up then !digits.isEmpty
  else doubleLimit * Nat.pow 10 down ≤ decimalValue digits * Nat.pow 10 up

end NameAtlas.Text
