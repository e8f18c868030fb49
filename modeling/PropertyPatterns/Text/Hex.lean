namespace PropertyPatterns

/-- The hexadecimal digits of a number, in lower case and without leading zeros. -/
def hexText (n : Nat) : List Char :=
  Nat.toDigits 16 n

end PropertyPatterns
