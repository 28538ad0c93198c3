import HackStack.Text.Basic

/-!
# Symbols of generated code

Static variables, labels and return addresses get assembler symbols of three forms. `$` occurs in
no identifier, so the forms stay apart.
-/

namespace HackStack.Lowering

def cellSymbol (unit : Text) (index : Int) : Text := unit ++ "." ++ Text.ofInt index

def labelSymbol (scope name : Text) : Text := scope ++ "$" ++ name

/-- The symbol of the place where the call with number `n` goes on. -/
def returnSymbol (scope : Text) (n : Int) : Text := labelSymbol scope "ret" ++ "$" ++ Text.ofInt n

end HackStack.Lowering
