import ContentType.Text.Quoted

namespace ContentType

/-- Why a line of a rule source is refused. -/
inductive Fault
  | invalidOffset (token : String)
  | invalidPointerWidth (letter : Char)
  | missingParenthesis
  | indirectOnTopLevel
  | unknownType (token : String)
  | levelSkip (previous found : UInt16)
  | orphanContinuation
deriving DecidableEq, Repr

def Fault.message : Fault → String
  | invalidOffset token => "offset " ++ Text.quote token ++ " invalid"
  | invalidPointerWidth letter => "indirect offset type " ++ Text.quoteChar letter ++ " invalid"
  | missingParenthesis => "missing ')' in indirect offset"
  | indirectOnTopLevel => "indirect offset on a top-level rule"
  | unknownType token => "type " ++ Text.quote token ++ " invalid"
  | levelSkip previous found =>
    "continuation level " ++ Nat.repr found.toNat ++ " follows level " ++ Nat.repr previous.toNat
  | orphanContinuation => "continuation without a top-level rule"

end ContentType
