import CommandVM.Verifier.Depth
import CommandVM.Verifier.Ranges

/-!
# The verifier

Three passes over a unit collect all errors: layout, ranges, and stack depths. Code that does not
decode ends the verification, and a jump off the instruction boundaries keeps the last pass from
running.
-/

namespace CommandVM.Verifier

def errors (u : CompiledUnit) : List Error :=
  match layout u with
  | .error e => [e]
  | .ok l => layoutErrors u l ++ tableErrors u l ++ if jumpsLand l then depthErrors u l else []

def accepts (u : CompiledUnit) : Bool := (errors u).isEmpty

end CommandVM.Verifier
