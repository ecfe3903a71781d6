/-!
# Decimal — numbers in running text

Numbers are written in decimal digits without leading zeros; a list of numbers stands in square brackets, a comma and a
space between two of them.
-/
namespace Regular
namespace Text

def decimal (n : Nat) : List Char := Nat.toDigits 10 n

/-- Numbers with a comma and a space between two of them. -/
def decimals : List Nat → List Char
  | [] => []
  | [n] => decimal n
  | n :: m :: ns => decimal n ++ ',' :: ' ' :: decimals (m :: ns)

def bracketed (ns : List Nat) : List Char := '[' :: (decimals ns ++ [']'])

end Text
end Regular
