import ArchGuard.Primitives

/-! Authenticator assurance levels and the factors that attest them. -/
namespace ArchGuard

inductive Aal
  | aal1 | aal2 | aal3
  deriving DecidableEq, Repr

def Aal.text : Aal → String
  | .aal1 => "aal1"
  | .aal2 => "aal2"
  | .aal3 => "aal3"

def Aal.rank : Aal → ℕ
  | .aal1 => 1
  | .aal2 => 2
  | .aal3 => 3

def Aal.atLeast (a min : Aal) : Bool := min.rank ≤ a.rank

inductive FactorType
  | password | totp | webAuthn | recoveryCode
  deriving DecidableEq, Repr

/-- The highest level a factor of this type can attest. -/
def maxAal : FactorType → Aal
  | .webAuthn => .aal3
  | .totp => .aal2
  | .recoveryCode => .aal2
  | .password => .aal1

/-- The highest level any of the methods attests; none when there is no method. -/
def strongestCeiling (methods : List FactorType) : Option Aal :=
  methods.foldl (fun best m =>
    if (best.map Aal.rank).getD 0 < (maxAal m).rank then some (maxAal m) else best) none

end ArchGuard
