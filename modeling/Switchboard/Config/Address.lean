import Switchboard.Text.Digit

/-!
# Addresses to listen at

An address to listen at is a host, a colon and a port. The host may have colons of its own, so the
last one counts.
-/

namespace Switchboard.Address

/-- Whether a text is a port: a number of at most sixteen bits, with a plus in front or not. -/
def isPort (text : String) : Bool :=
  let digits :=
    match text.toList with
    | '+' :: cs => cs
    | cs => cs
  !digits.isEmpty && digits.all Char.isDigit
    && Text.number 10 digits ≤ 65535

/-- What stands before and after the last colon, if there is one. -/
def splitPort (text : String) : Option (String × String) :=
  let cs := text.toList
  let port := (cs.reverse.takeWhile (· ≠ ':')).reverse
  if port.length < cs.length then
    some (String.ofList (cs.take (cs.length - port.length - 1)), String.ofList port)
  else none

end Switchboard.Address
