import ArchGuard.Digests
import ArchGuard.RefreshToken

namespace ArchGuard.Oidc
open Sha256

/-- A single-use authorization code; only the hash of its secret is held. -/
structure AuthorizationCode where
  id : Uuid
  codeHash : Bytes
  clientId : String
  redirectURI : String
  codeChallenge : String
  sessionId : Uuid
  organizationId : Uuid
  scopes : List String
  expiresAt : Time
  used : Bool
  deriving DecidableEq, Repr

def base64URLDigit (n : ℕ) : Char :=
  "ABCDEFGHIJKLMNOPQRSTUVWXYZabcdefghijklmnopqrstuvwxyz0123456789-_".toList.getD n 'A'

/-- `base64.RawURLEncoding`: three bytes to four digits, no padding. -/
def base64RawURL : Bytes → List Char
  | [] => []
  | [a] => [base64URLDigit (a.toNat/4), base64URLDigit (a.toNat%4*16)]
  | [a, b] => [base64URLDigit (a.toNat/4), base64URLDigit (a.toNat%4*16+b.toNat/16),
      base64URLDigit (b.toNat%16*4)]
  | a :: b :: c :: rest => base64URLDigit (a.toNat/4) :: base64URLDigit (a.toNat%4*16+b.toNat/16) ::
      base64URLDigit (b.toNat%16*4+c.toNat/64) :: base64URLDigit (c.toNat%64) :: base64RawURL rest

def verifyPKCE (codeVerifier codeChallenge : String) : Bool :=
  if codeVerifier = "" ∨ codeChallenge = "" then false
  else String.ofList (base64RawURL (sha256 (Bytes.ofString codeVerifier))) = codeChallenge

/-- The fail-closed checks of a code at the token endpoint. -/
def AuthorizationCode.redeem (c : AuthorizationCode) (redirectURI codeVerifier : String)
    (now : Time) : Except OidcError Unit :=
  if c.used ∨ !(now < c.expiresAt) then .error .authCodeExpiredOrUsed
  else if c.redirectURI ≠ redirectURI then .error .redirectURIMismatch
  else if !verifyPKCE codeVerifier c.codeChallenge then .error .pkceVerificationFailed
  else .ok ()

end ArchGuard.Oidc
