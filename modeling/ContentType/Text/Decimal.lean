namespace ContentType.Text

/-- Digits without needless zeros, and a minus sign in front of a negative number. -/
def decimal : Int → List Char
  | .ofNat n => Nat.toDigits 10 n
  | .negSucc n => '-' :: Nat.toDigits 10 (n + 1)

end ContentType.Text
