/-!
Decimal digits of natural numbers.
-/
namespace Reporting.Digits

/-- Counts up from `k` to the first count of digits that holds `n`. -/
def countFrom (n k : Nat) : Nat :=
  if Nat.pow 10 k ≤ n then countFrom n (k + 1) else k
termination_by n + 1 - Nat.pow 10 k
decreasing_by
  have : Nat.pow 10 k < Nat.pow 10 (k + 1) :=
    Nat.pow_lt_pow_right (by decide) (Nat.lt_succ_self k)
  omega

/-- A count of digits that is not too large: 1233 / 4096 lies just below the logarithm of two. -/
def countBelow (n : Nat) : Nat := max 1 (n.log2 * 1233 / 4096)

/-- The number of digits of `n`; zero has one. -/
def count (n : Nat) : Nat := countFrom n (countBelow n)

/-- The last `k` digits of `n`, with zeros in front. -/
def last (k n : Nat) : List Char :=
  if k = 0 then []
  else if k = 1 then [Nat.digitChar (n % 10)]
  else last (k - k / 2) (n / Nat.pow 10 (k / 2)) ++ last (k / 2) n
termination_by k

/-- The digits of `n`, without leading zeros. -/
def ofNat (n : Nat) : List Char := last (count n) n

/-- The number that a list of digits writes. -/
def value (ds : List Char) : Nat := ds.foldl (fun n d => n * 10 + (d.toNat - 48)) 0

/-- Zeros in front up to a width, where a sign counts as well. -/
def pad (width : Nat) (n : Int) : List Char :=
  let ds := ofNat n.natAbs
  if n < 0 then '-' :: (List.replicate (width - 1 - ds.length) '0' ++ ds)
  else List.replicate (width - ds.length) '0' ++ ds

/-- An integer in decimal notation. -/
def ofInt (n : Int) : List Char := pad 0 n

end Reporting.Digits
