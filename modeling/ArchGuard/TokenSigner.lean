import ArchGuard.ClaimsJson

/-! The signer of tokens over its rotations: which keys it keeps, and which tokens it verifies. -/
namespace ArchGuard.Oidc
open GoJson

structure JoseHeader where
  alg : String
  typ : String
  kid : Option String
  deriving DecidableEq, Repr

/-- The library of signed tokens, over its private and public keys. -/
structure Jwt (Priv Pub Token : Type) where
  publicKey : Priv → Pub
  signedString : JoseHeader → Value → Priv → Except String Token
  /-- What the token says of itself, before its signature is looked at. -/
  parseUnverified : Token → Except String (JoseHeader × Value)
  signedBy : Pub → Token → Bool

variable {Priv Pub Token : Type}

/-- A token carries its header and its claims as JSON, and the signature of its key. -/
structure Jwt.Lawful (lib : Jwt Priv Pub Token) : Prop where
  parses : ∀ header claims key token, checkValid claims = true →
    lib.signedString header claims key = .ok token →
      lib.parseUnverified token = .ok (header, claims.written.decoded)
  verifies : ∀ header claims key token, lib.signedString header claims key = .ok token →
    lib.signedBy (lib.publicKey key) token = true

/-- A key as a custodian hands it over. -/
structure SigningKey (Priv : Type) where
  kid : String
  privateKey : Option Priv

/-- A key that the signer accepts. -/
structure UsableKey (Priv : Type) where
  kid : String
  privateKey : Priv
  named : kid ≠ ""

def SigningKey.usable (k : SigningKey Priv) : Option (UsableKey Priv) :=
  match k.privateKey with
  | none => none
  | some p => if h : k.kid = "" then none else some ⟨k.kid, p, h⟩

inductive SignerError
  | currentKeyInvalid
  | newKeyInvalid
  | claims (err : OidcError)
  | claimsMapping
  | signature (err : String)
  | verification (err : String)
  | claimsDecoding
  deriving DecidableEq, Repr

structure Signer (Priv : Type) where
  current : UsableKey Priv
  previous : List (UsableKey Priv)

def newSigner (current : SigningKey Priv) : Except SignerError (Signer Priv) :=
  match current.usable with
  | none => .error .currentKeyInvalid
  | some k => .ok ⟨k, []⟩

def Signer.rotate (s : Signer Priv) (newKey : SigningKey Priv) (keepPrevious : ℤ) :
    Except SignerError (Signer Priv) :=
  match newKey.usable with
  | none => .error .newKeyInvalid
  | some k =>
    let previous := s.current :: s.previous
    .ok { current := k
          previous := if 0 ≤ keepPrevious ∧ keepPrevious < previous.length then
              previous.take keepPrevious.toNat
            else previous }

structure Jwk (Pub : Type) where
  key : Pub
  keyID : String
  algorithm : String
  use : String

def Signer.published (s : Signer Priv) : List (UsableKey Priv) := s.current :: s.previous

section Tokens

variable (lib : Jwt Priv Pub Token)

def Signer.jwks (s : Signer Priv) : List (Jwk Pub) :=
  s.published.map fun k => ⟨lib.publicKey k.privateKey, k.kid, "RS256", "sig"⟩

def Signer.publicKeyByKID (s : Signer Priv) (kid : String) : Option Pub :=
  (s.published.find? fun k => k.kid = kid).map fun k => lib.publicKey k.privateKey

/-- The claims as the library takes them, signed under the current key. -/
def Signer.signMap (s : Signer Priv) (typ : String) (v : Value) : Except SignerError Token :=
  if checkValid v then
    match lib.signedString ⟨"RS256", typ, some s.current.kid⟩ v.decoded s.current.privateKey with
    | .error err => .error (.signature err)
    | .ok token => .ok token
  else .error .claimsMapping

def Signer.sign (s : Signer Priv) (c : TokenClaims) : Except SignerError Token :=
  match c.wellFormed with
  | .error err => .error (.claims err)
  | .ok () => s.signMap lib "JWT" c.marshal

def Signer.signLogoutToken (s : Signer Priv) (c : LogoutTokenClaims) : Except SignerError Token :=
  match c.wellFormed with
  | .error err => .error (.claims err)
  | .ok () => s.signMap lib "logout+jwt" c.marshal

def Signer.mint (s : Signer Priv) : Mint → Except SignerError Token
  | .access c => s.sign lib c
  | .logout c => s.signLogoutToken lib c

def Signer.verify (s : Signer Priv) (token : Token) : Except SignerError TokenClaims :=
  match lib.parseUnverified token with
  | .error err => .error (.verification err)
  | .ok (header, claims) =>
    if header.alg ≠ "RS256" then
      .error (.verification ("signing method " ++ header.alg ++ " is invalid"))
    else
      -- a header without the kid names the empty one
      let kid := header.kid.getD ""
      match s.publicKeyByKID lib kid with
      | none => .error (.verification ("oidc: kid " ++ quoted kid ++ " desconhecido"))
      | some key =>
        if lib.signedBy key token then
          match readClaims claims.written with
          | none => .error .claimsDecoding
          | some c => .ok c
        else .error (.verification "signature is invalid")

end Tokens

/-- A rotation that fails leaves the signer as it was. -/
def Signer.rotated (keepPrevious : ℤ) (s : Signer Priv) (newKey : SigningKey Priv) : Signer Priv :=
  match s.rotate newKey keepPrevious with
  | .error _ => s
  | .ok s' => s'

def Signer.rotations (keepPrevious : ℤ) (s : Signer Priv) (keys : List (SigningKey Priv)) :
    Signer Priv := keys.foldl (Signer.rotated keepPrevious) s

def installed (keys : List (SigningKey Priv)) : List (UsableKey Priv) := keys.filterMap SigningKey.usable

section Rotation

variable {s : Signer Priv} {h : List (UsableKey Priv)} {keep : ℤ}

/-- A signer after the rotations of a history, newest first. -/
def Signer.Retains (keep : ℤ) (s : Signer Priv) (h : List (UsableKey Priv)) : Prop :=
  h.head? = some s.current ∧ s.published = h.take (keep.toNat+1)

theorem Signer.Retains.rotate (hs : s.Retains keep h) (hkeep : 0 ≤ keep)
    (newKey : SigningKey Priv) :
    (s.rotated keep newKey).Retains keep (newKey.usable.toList ++ h) := by
  cases hk : newKey.usable with
  | none =>
    have heq : s.rotated keep newKey = s := by rw [rotated, Signer.rotate, hk]
    rw [heq]
    exact hs
  | some k =>
    refine ⟨by rw [rotated, Signer.rotate, hk]; rfl, ?_⟩
    have htake : (s.rotated keep newKey).published = k :: s.published.take keep.toNat := by
      rw [rotated, Signer.rotate, hk]
      show k :: ite _ _ _ = k :: s.published.take keep.toNat
      split_ifs with hlen
      · rfl
      · refine congrArg (k :: ·) (List.take_of_length_le ?_).symm
        show (s.current :: s.previous).length ≤ keep.toNat
        omega
    rw [htake, hs.2, List.take_take, min_eq_left (Nat.le_succ _)]
    rfl

theorem Signer.Retains.rotations (hs : s.Retains keep h) (hkeep : 0 ≤ keep)
    (keys : List (SigningKey Priv)) :
    (s.rotations keep keys).Retains keep ((installed keys).reverse ++ h) := by
  induction keys generalizing s h with
  | nil => exact hs
  | cons newKey keys ih =>
    have hrest := ih (hs.rotate hkeep newKey)
    have hhistory : (installed (newKey :: keys)).reverse ++ h =
        (installed keys).reverse ++ (newKey.usable.toList ++ h) := by
      rw [installed, List.filterMap_cons]
      cases newKey.usable with
      | none => rfl
      | some k =>
        rw [List.reverse_cons, List.append_assoc]
        rfl
    rw [hhistory]
    exact hrest

theorem retains_newSigner {first : SigningKey Priv} {s : Signer Priv}
    (h : newSigner first = .ok s) : s.Retains keep (installed [first]).reverse := by
  rw [newSigner] at h
  rw [installed, List.filterMap_cons]
  cases hk : first.usable with
  | none =>
    rw [hk] at h
    cases h
  | some k =>
    rw [hk] at h
    cases h
    refine ⟨rfl, (List.take_of_length_le ?_).symm⟩
    exact Nat.le_add_left 1 _

theorem retains_history {first : SigningKey Priv} {s : Signer Priv}
    (h : newSigner first = .ok s) (hkeep : 0 ≤ keep) (keys : List (SigningKey Priv)) :
    (s.rotations keep keys).Retains keep (installed (first :: keys)).reverse := by
  have hfirst : s.Retains keep (installed [first]).reverse := retains_newSigner h
  have hall := hfirst.rotations hkeep keys
  have happend : installed (first :: keys) = installed [first] ++ installed keys :=
    @List.filterMap_append _ _ [first] keys _
  rwa [happend, List.reverse_append]

end Rotation

section Verification

variable {lib : Jwt Priv Pub Token} {s s' : Signer Priv} {m : Mint} {token : Token} {keep : ℤ}

theorem signMap_eq_ok {typ : String} {v : Value} :
    s.signMap lib typ v = .ok token ↔ checkValid v = true ∧
      lib.signedString ⟨"RS256", typ, some s.current.kid⟩ v.decoded s.current.privateKey =
        .ok token := by
  rw [Signer.signMap]
  split_ifs with hvalid
  · cases lib.signedString ⟨"RS256", typ, some s.current.kid⟩ v.decoded s.current.privateKey <;>
      simp [hvalid]
  · simp [hvalid]

theorem LogoutTokenClaims.pos_of_wellFormed {c : LogoutTokenClaims} (h : c.wellFormed = .ok ()) :
    0 < c.iat := by
  by_contra hneg
  simp only [wellFormed, not_lt.mp hneg, if_true] at h
  split_ifs at h

theorem mint_eq_ok (h : s.mint lib m = .ok token) :
    (∀ t ∈ m.instants, 0 < t) ∧ ∃ typ, s.signMap lib typ m.marshal = .ok token := by
  cases m with
  | access c =>
    rw [Signer.mint, Signer.sign] at h
    cases hwf : c.wellFormed with
    | error err =>
      rw [hwf] at h
      cases h
    | ok u =>
      rw [hwf] at h
      obtain ⟨-, -, -, hauth, ⟨hiat, hexp⟩, -⟩ := (wellFormed_ok_iff c.toOIDCClaims).mp hwf
      refine ⟨?_, "JWT", h⟩
      simp only [Mint.instants, List.forall_mem_cons, List.not_mem_nil, false_imp_iff,
        implies_true, and_true]
      exact ⟨hiat.trans hexp, hiat, hauth⟩
  | logout c =>
    rw [Signer.mint, Signer.signLogoutToken] at h
    cases hwf : c.wellFormed with
    | error err =>
      rw [hwf] at h
      cases h
    | ok u =>
      rw [hwf] at h
      refine ⟨?_, "logout+jwt", h⟩
      intro t ht
      rw [List.mem_singleton.mp ht]
      exact LogoutTokenClaims.pos_of_wellFormed hwf

theorem parses_of_signed {header : JoseHeader} {v : Value} {key : Priv} (hlib : lib.Lawful)
    (hvalid : checkValid v = true) (hsigned : lib.signedString header v.decoded key = .ok token) :
    lib.parseUnverified token = .ok (header, v.decoded.written.decoded) := by
  apply hlib.parses header v.decoded key token _ hsigned
  rw [Value.decoded, checkValid_mapNums]
  exact hvalid

/-- A signer that still publishes the key of a token reads the token's claims back, unless an
instant is too large. -/
theorem verify_minted (hlib : lib.Lawful) (h : s.mint lib m = .ok token)
    (hkey : s'.publicKeyByKID lib s.current.kid = some (lib.publicKey s.current.privateKey)) :
    s'.verify lib token =
      if ∀ t ∈ m.instants, t < 2^63-2^9 then .ok (m.claims.mapInstants throughJson)
      else .error .claimsDecoding := by
  obtain ⟨hpos, typ, hmap⟩ := mint_eq_ok h
  obtain ⟨hvalid, hsigned⟩ := signMap_eq_ok.mp hmap
  have hparse := parses_of_signed hlib hvalid hsigned
  have hread : readClaims m.marshal.decoded.written.decoded.written =
      if ∀ t ∈ m.instants, t < 2^63-2^9 then some (m.claims.mapInstants throughJson) else none := by
    rw [decoded_written_decoded, Value.decoded, Value.written, mapNums_mapNums]
    refine (readClaims_marshal throughJson_zero hvalid).trans (if_congr ?_ rfl rfl)
    exact forall₂_congr fun t ht => inInt64_throughJson_iff (hpos t ht)
  rw [Signer.verify, hparse]
  simp only [ne_eq, not_true_eq_false, if_false, Option.getD_some, hkey, hread,
    hlib.verifies _ _ _ _ hsigned, if_true]
  split_ifs <;> rfl

theorem verify_unpublished (hlib : lib.Lawful) (h : s.mint lib m = .ok token)
    (hkey : s'.publicKeyByKID lib s.current.kid = none) (c : TokenClaims) :
    s'.verify lib token ≠ .ok c := by
  obtain ⟨-, typ, hmap⟩ := mint_eq_ok h
  obtain ⟨hvalid, hsigned⟩ := signMap_eq_ok.mp hmap
  rw [Signer.verify, parses_of_signed hlib hvalid hsigned]
  simp [hkey]

theorem find_kept {later rest : List (UsableKey Priv)} {k : UsableKey Priv} {kept : ℕ}
    (hnodup : ((later ++ k :: rest).map UsableKey.kid).Nodup) :
    ((later ++ k :: rest).take (kept+1)).find? (fun j => j.kid = k.kid) =
      if later.length ≤ kept then some k else none := by
  have hlater : ∀ j ∈ later, j.kid ≠ k.kid := by
    rw [List.map_append, List.map_cons] at hnodup
    intro j hj heq
    exact (List.nodup_append'.mp hnodup).2.2 (List.mem_map_of_mem hj)
      (heq ▸ List.mem_cons_self)
  have hnone (l : List (UsableKey Priv)) (hl : l ⊆ later) :
      l.find? (fun j => j.kid = k.kid) = none := by
    rw [List.find?_eq_none]
    intro j hj
    simpa using hlater j (hl hj)
  split_ifs with hlen
  · rw [List.take_append, List.take_of_length_le (by omega), List.find?_append,
      hnone later (List.Subset.refl _), Option.none_or,
      show kept+1-later.length = (kept-later.length)+1 by omega, List.take_succ_cons,
      List.find?_cons_of_pos (by simp)]
  · rw [List.take_append_of_le_length (by omega)]
    exact hnone _ (List.take_subset _ _)

end Verification

section Survival

variable (lib : Jwt Priv Pub Token) (keep : ℤ) (first : SigningKey Priv) (s : Signer Priv)
  (before : List (SigningKey Priv)) (token : Token)

/-- A token signed after the rotations `before`: its key is the newest, and it lives for as many
rotations more as keys are kept. -/
structure SurvivesRotation : Prop where
  newest : ∃ k, (installed (first :: before)).getLast? = some k ∧
    (∃ typ claims, lib.parseUnverified token = .ok (⟨"RS256", typ, some k.kid⟩, claims)) ∧
    lib.signedBy (lib.publicKey k.privateKey) token = true ∧
    ∀ after, ((installed (first :: before ++ after)).map UsableKey.kid).Nodup →
      (installed after).length ≤ keep →
        (∃ c, (s.rotations keep (before ++ after)).verify lib token = .ok c) ∧
        ⟨lib.publicKey k.privateKey, k.kid, "RS256", "sig"⟩ ∈
          (s.rotations keep (before ++ after)).jwks lib
  retired : ∀ after, ((installed (first :: before ++ after)).map UsableKey.kid).Nodup →
    keep < (installed after).length →
      ∀ c, (s.rotations keep (before ++ after)).verify lib token ≠ .ok c

end Survival

section Exact

variable {lib : Jwt Priv Pub Token} {keep : ℤ} {first : SigningKey Priv} {s : Signer Priv}
  {before after : List (SigningKey Priv)} {m : Mint} {token : Token}

theorem publicKeyByKID_after (hkeep : 0 ≤ keep) (hnew : newSigner first = .ok s)
    (hnodup : ((installed (first :: before ++ after)).map UsableKey.kid).Nodup) :
    (s.rotations keep (before ++ after)).published.find?
        (fun k => k.kid = (s.rotations keep before).current.kid) =
      if (installed after).length ≤ keep then some (s.rotations keep before).current else none := by
  obtain ⟨hhead, -⟩ := retains_history hnew hkeep before
  obtain ⟨-, hpublished⟩ := retains_history hnew hkeep (before ++ after)
  obtain ⟨rest, hrest⟩ := List.head?_eq_some_iff.mp hhead
  have hhistory : (installed (first :: (before ++ after))).reverse =
      (installed after).reverse ++ (s.rotations keep before).current :: rest := by
    rw [← List.cons_append, installed, List.filterMap_append, List.reverse_append]
    exact congrArg _ hrest
  rw [List.cons_append, ← List.nodup_reverse, ← List.map_reverse, hhistory] at hnodup
  rw [hpublished, hhistory, find_kept hnodup, List.length_reverse]
  exact if_congr (by omega) rfl rfl

end Exact

/-- A token survives exactly when no instant of its claims is so large that its float is beyond an
`int64`: such a token is signed, and never verifies. -/
theorem rotation_exact {lib : Jwt Priv Pub Token} (hlib : lib.Lawful) {keep : ℤ} (hkeep : 0 ≤ keep)
    {first : SigningKey Priv} {s : Signer Priv} (hnew : newSigner first = .ok s)
    {before : List (SigningKey Priv)}
    (hnodup : ((installed (first :: before)).map UsableKey.kid).Nodup) {m : Mint} {token : Token}
    (hmint : (s.rotations keep before).mint lib m = .ok token) :
    SurvivesRotation lib keep first s before token ↔ ∀ t ∈ m.instants, t < 2^63-2^9 := by
  have hfound {after : List (SigningKey Priv)}
      (hafter : ((installed (first :: before ++ after)).map UsableKey.kid).Nodup) :
      (s.rotations keep (before ++ after)).publicKeyByKID lib (s.rotations keep before).current.kid =
        if (installed after).length ≤ keep then
          some (lib.publicKey (s.rotations keep before).current.privateKey) else none := by
    rw [Signer.publicKeyByKID, publicKeyByKID_after hkeep hnew hafter]
    split_ifs <;> rfl
  constructor
  · intro hsurvives
    obtain ⟨k, -, -, -, hverifies⟩ := hsurvives.newest
    have hnow : ((installed (first :: before ++ [])).map UsableKey.kid).Nodup := by
      rwa [List.append_nil]
    obtain ⟨⟨c, hc⟩, -⟩ := hverifies [] hnow hkeep
    rw [verify_minted hlib hmint ((hfound hnow).trans (if_pos hkeep))] at hc
    by_contra hlarge
    rw [if_neg hlarge] at hc
    cases hc
  · intro hinstants
    obtain ⟨-, typ, hmap⟩ := mint_eq_ok hmint
    obtain ⟨hvalid, hsigned⟩ := signMap_eq_ok.mp hmap
    constructor
    · refine ⟨(s.rotations keep before).current, ?_, ⟨typ, _, parses_of_signed hlib hvalid hsigned⟩,
        hlib.verifies _ _ _ _ hsigned, ?_⟩
      · rw [← List.head?_reverse]
        exact (retains_history hnew hkeep before).1
      · intro after hafter hlen
        have hkept := publicKeyByKID_after hkeep hnew hafter
        rw [if_pos hlen] at hkept
        refine ⟨⟨m.claims.mapInstants throughJson, ?_⟩, ?_⟩
        · rw [verify_minted hlib hmint ((hfound hafter).trans (if_pos hlen)), if_pos hinstants]
        · exact List.mem_map_of_mem (List.mem_of_find?_eq_some hkept)
    · intro after hafter hlen
      exact verify_unpublished hlib hmint ((hfound hafter).trans (if_neg (by omega)))

section Built

/-- An instant that a `time.Time` holds: its seconds since the year 1 are an `int64`. -/
def IsTime (t : Time) : Prop :=
  -2^63 ≤ Time.unix t+62135596800 ∧ Time.unix t+62135596800 < 2^63

instance (t : Time) : Decidable (IsTime t) := inferInstanceAs (Decidable (_ ∧ _))

def newLogoutTokenClaims (issuer audience sid jti : String) (iat : Time) :
    Except OidcError LogoutTokenClaims :=
  if issuer = "" ∨ audience = "" ∨ sid = "" ∨ jti = "" then
    .error (invalidClaims "iss/aud/sid/jti obrigatórios")
  else if iat = Time.zero then .error (invalidClaims "iat ausente")
  else .ok {
    iss := issuer
    aud := audience
    iat := Time.unix iat
    jti := jti
    sid := sid
    events := [(backchannelLogoutEvent, [])]
    version := oidcClaimsVersion }

/-- The claim sets as the callers of the signer have them built. -/
inductive Mint.Built : Mint → Prop
  | access {i : OIDCClaimsInput} {c : TokenClaims} : IsTime i.issuedAt → IsTime i.session.authTime →
      buildOIDCClaims i = .ok c.toOIDCClaims → Built (.access c)
  | logout {issuer audience sid jti : String} {iat : Time} {c : LogoutTokenClaims} : IsTime iat →
      newLogoutTokenClaims issuer audience sid jti iat = .ok c → Built (.logout c)

theorem unix_add_le {t : Time} {d : Duration} (h : d ≤ maxAccessTTL) :
    Time.unix (t+d) ≤ Time.unix t+900 := by
  have hmax : (900*10^9 : ℤ) ≥ d := by simpa [maxAccessTTL] using h
  unfold Time.unix
  omega

/-- The instants of the claims that are built: a token expires within a quarter of an hour. -/
theorem buildOIDCClaims_instants {i : OIDCClaimsInput} {c : OIDCClaims}
    (h : buildOIDCClaims i = .ok c) : c.iat = Time.unix i.issuedAt ∧ c.exp ≤ c.iat+900 ∧
      c.authTime = Time.unix i.session.authTime := by
  let issuer : TokenIssuer := ⟨fun _ => .error "", i.issuer, i.accessTTL⟩
  obtain ⟨membershipId, org, hclaimable, rfl⟩ := (buildOIDCClaims_eq_ok (i := issuer)).mp h
  refine ⟨rfl, ?_, rfl⟩
  exact unix_add_le hclaimable.ttl.2

theorem newLogoutTokenClaims_iat {issuer audience sid jti : String} {iat : Time}
    {c : LogoutTokenClaims} (h : newLogoutTokenClaims issuer audience sid jti iat = .ok c) :
    c.iat = Time.unix iat := by
  rw [newLogoutTokenClaims, ite_error_eq_ok, ite_error_eq_ok] at h
  rw [← Except.ok.inj h.2.2]

theorem Mint.Built.instants_lt {m : Mint} (h : m.Built) : ∀ t ∈ m.instants, t < 2^63-2^9 := by
  cases h with
  | access hissued hauth hbuilt =>
    obtain ⟨hiat, hexp, hauthTime⟩ := buildOIDCClaims_instants hbuilt
    rw [IsTime, ← hiat] at hissued
    rw [IsTime, ← hauthTime] at hauth
    simp only [Mint.instants, List.forall_mem_cons, List.not_mem_nil, false_imp_iff, implies_true,
      and_true]
    exact ⟨by omega, by omega, by omega⟩
  | logout hissued hbuilt =>
    rw [IsTime, ← newLogoutTokenClaims_iat hbuilt] at hissued
    simp only [Mint.instants, List.forall_mem_cons, List.not_mem_nil, false_imp_iff, implies_true,
      and_true]
    omega

/-- A token of claims as they are built survives rotation; one of any claims does so exactly when no
instant is too large. -/
theorem rotation_survives {lib : Jwt Priv Pub Token} (hlib : lib.Lawful) {keep : ℤ} (hkeep : 0 ≤ keep)
    {first : SigningKey Priv} {s : Signer Priv} (hnew : newSigner first = .ok s)
    {before : List (SigningKey Priv)}
    (hnodup : ((installed (first :: before)).map UsableKey.kid).Nodup) {m : Mint} {token : Token}
    (hmint : (s.rotations keep before).mint lib m = .ok token) :
    (m.Built → SurvivesRotation lib keep first s before token) ∧
      (SurvivesRotation lib keep first s before token ↔ ∀ t ∈ m.instants, t < 2^63-2^9) := by
  have hexact := rotation_exact hlib hkeep hnew hnodup hmint
  exact ⟨fun hbuilt => hexact.mpr hbuilt.instants_lt, hexact⟩

end Built

section Sample

/-- Tokens in the clear, each with the number of the key that signed it. -/
def clearJwt : Jwt ℕ ℕ (JoseHeader × Value × ℕ) where
  publicKey key := key
  signedString header claims key := .ok (header, claims.written, key)
  parseUnverified token := .ok (token.1, token.2.1.decoded)
  signedBy key token := token.2.2 = key

theorem clearJwt_lawful : clearJwt.Lawful where
  parses := by
    intro header claims key token _ hsigned
    cases hsigned
    rfl
  verifies := by
    intro header claims key token hsigned
    cases hsigned
    exact decide_eq_true rfl

/-- A session of a tenant, ten seconds before its token. -/
def sampleInput : OIDCClaimsInput where
  issuer := "https://archguard.example"
  audience := "warpgate"
  subject := "sub-opaque"
  session := ⟨9, 1, some 20, some 30, .active, .aal2, 1, 1799999990*10^9, [.password, .webAuthn]⟩
  issuedAt := 1800000000*10^9
  accessTTL := maxAccessTTL
  grantedScopes := []
  email := ""

/-- The claims of the sample, with an expiry of their own. -/
def sampleClaims (exp : ℤ) : TokenClaims where
  toOIDCClaims := { sampleInput.claims 20 30 with exp := exp }
  groups := []
  roles := []
  act := none
  pcid := ""
  grantRef := ""

def keyA : SigningKey ℕ := ⟨"kid-A", some 1⟩

def keyB : SigningKey ℕ := ⟨"kid-B", some 2⟩

def signerA : Signer ℕ := ⟨⟨"kid-A", 1, by decide⟩, []⟩

/-- The sample's token after one rotation. -/
def tokenB (exp : ℤ) : JoseHeader × Value × ℕ :=
  (⟨"RS256", "JWT", some "kid-B"⟩, (sampleClaims exp).marshal.decoded.written, 2)

theorem mint_tokenB {exp : ℤ} (h : 1800000000 < exp) :
    (signerA.rotations 2 [keyB]).mint clearJwt (.access (sampleClaims exp)) = .ok (tokenB exp) := by
  have hwf : (sampleClaims exp).wellFormed = .ok () := by
    rw [wellFormed_ok_iff]
    have hnames : sampleInput.issuer ≠ "" ∧ sampleInput.subject ≠ "" ∧ sampleInput.audience ≠ "" := by
      decide
    have hmethods : sampleInput.session.amr ≠ [] := by decide
    have htimes : 0 < Time.unix sampleInput.session.authTime ∧
        0 < Time.unix sampleInput.issuedAt := by decide
    exact ⟨⟨hnames.1, hnames.2.1, hnames.2.2, text_ne_empty _, text_ne_empty _, text_ne_empty _⟩,
      validLevel_level .aal2, hmethods, htimes.1, ⟨htimes.2, h⟩, rfl⟩
  rw [Signer.mint, Signer.sign, hwf]
  rfl

theorem built_sample : (Mint.access (sampleClaims 1800000900)).Built :=
  .access (i := sampleInput) (by decide) (by decide) (by rfl)

/-- The sample's claims were built, so that two more rotations leave its token verified. -/
theorem sample_survives :
    SurvivesRotation clearJwt 2 keyA signerA [keyB] (tokenB 1800000900) ∧
      ∀ t ∈ (Mint.access (sampleClaims 1800000900)).instants, t < 2^63-2^9 := by
  have lasting : (1800000000 : ℤ) < 1800000900 := by decide
  obtain ⟨hbuilt, hexact⟩ := rotation_survives clearJwt_lawful (by decide)
    (show newSigner keyA = .ok signerA from rfl) (by decide) (mint_tokenB lasting)
  exact ⟨hbuilt built_sample, hexact.mp (hbuilt built_sample)⟩

/-- A token that would expire at the last second of an `int64` is signed and does not verify, not
even under the key that has just signed it. -/
theorem last_second_unverified :
    (signerA.rotations 2 [keyB]).mint clearJwt (.access (sampleClaims (2^63-1))) =
        .ok (tokenB (2^63-1)) ∧
      (signerA.rotations 2 [keyB]).verify clearJwt (tokenB (2^63-1)) = .error .claimsDecoding ∧
      ¬ SurvivesRotation clearJwt 2 keyA signerA [keyB] (tokenB (2^63-1)) := by
  have hmint := @mint_tokenB (2^63-1) (by decide)
  have hverify : (signerA.rotations 2 [keyB]).verify clearJwt (tokenB (2^63-1)) =
      .error .claimsDecoding := by
    rw [verify_minted clearJwt_lawful hmint rfl]
    exact if_neg (by decide)
  refine ⟨hmint, hverify, ?_⟩
  intro hsurvives
  obtain ⟨k, -, -, -, hverifies⟩ := hsurvives.newest
  obtain ⟨⟨c, hc⟩, -⟩ := hverifies [] (by decide) (by decide)
  cases hverify.symm.trans hc

end Sample

end ArchGuard.Oidc
