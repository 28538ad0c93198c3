import HackStack.Text.Basic

/-!
# Limited output

An output may have room for a limited number of bytes.
-/

namespace HackStack.Lowering

structure Limit where
  /-- For how many bytes there is room. -/
  room : Int
  /-- What the output says when it has been sent more. -/
  reason : Text
  deriving DecidableEq, Repr

/-- Whether the output fails when `sent` bytes are sent to it. To send nothing never fails. -/
def Limit.isExceeded (l : Limit) (sent : Nat) : Bool := 0 < sent && l.room < sent

end HackStack.Lowering
