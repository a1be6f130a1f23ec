/-!
# Hexadecimal numbers

Numbers in base sixteen, in either case, with or without leading zeros.
-/

namespace WasmCore.Hex

/-- A number in base sixteen with lower-case digits and no leading zeros. -/
def lower (n : Nat) : String := String.ofList (Nat.toDigits 16 n)

/-- A number in base sixteen with upper-case digits and no leading zeros. -/
def upper (n : Nat) : String := String.ofList ((Nat.toDigits 16 n).map Char.toUpper)

/-- A text brought to at least the given length by zeros in front. -/
def padded (length : Nat) (digits : String) : String :=
  String.ofList (List.replicate (length - digits.length) '0') ++ digits

end WasmCore.Hex
