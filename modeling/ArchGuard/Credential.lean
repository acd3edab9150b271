import ArchGuard.Assurance
import ArchGuard.Digests
import ArchGuard.GoMethod

/-! The credentials of an identity, and the recovery codes among them. -/
namespace ArchGuard
open GoMethod GoText Method

/-- `DefaultAAL`: the level of a factor that was just migrated. -/
def defaultAal : FactorType → Aal
  | .totp => .aal2
  | .webAuthn => .aal2
  | .recoveryCode => .aal2
  | .password => .aal1

structure Credential where
  id : Uuid
  identityId : Uuid
  type : FactorType
  aal : Aal
  verifier : Bytes
  secretRef : GoString
  publicMaterial : Bytes
  params : List (String × GoString)
  label : GoString
  deriving DecidableEq, Repr

/-- `WellFormed`: exactly the material of the type, at a level that the type reaches. -/
def Credential.wellFormed (c : Credential) : Bool :=
  c.identityId ≠ Uuid.nil && (maxAal c.type).atLeast c.aal &&
    match c.type with
    | .password => c.verifier ≠ [] && c.secretRef = [] && c.publicMaterial = []
    | .recoveryCode => c.verifier ≠ [] && c.secretRef = [] && c.publicMaterial = []
    | .totp => c.secretRef ≠ [] && c.verifier = [] && c.publicMaterial = []
    | .webAuthn => c.publicMaterial ≠ [] && c.secretRef = [] && c.verifier = []

/-- The keys of the credential table: its id, and one password and one TOTP for each identity. -/
def acceptsCredential (rows : List Credential) (c : Credential) : Bool :=
  rows.all fun d => d.id ≠ c.id &&
    (d.identityId ≠ c.identityId || d.type ≠ c.type ||
      (c.type = .webAuthn || c.type = .recoveryCode))

inductive CredentialError
  | invalidCredential (detail : String)
  | uuid
  deriving DecidableEq, Repr

def CredentialError.text : CredentialError → String
  | .invalidCredential detail => "credential: dados obrigatórios ausentes: " ++ detail
  | .uuid => "credential: geração de UUIDv7 falhou"

/-- What the code outside answers, call by call: `uuid.NewV7`, the text of the random bytes of a
subject, and the `Put` of the vault. A map of the assignments of a role, by organization, is ranged
over in an order of its own. -/
structure Outside where
  newV7 : ℕ → Option Uuid
  newSubject : ℕ → Option String
  put : ℕ → Bytes → Option GoString
  byOrg : (role : Uuid) → List Uuid → List Uuid
  byOrg_perm : ∀ role orgs, (byOrg role orgs).Perm orgs

/-- How often each of them was called. -/
structure Calls where
  drawn : ℕ
  subjects : ℕ
  puts : ℕ
  deriving DecidableEq, Repr

/-- UUIDs are drawn once, and are not nil. -/
structure Outside.Fresh (w : Outside) : Prop where
  distinct : ∀ m n u, w.newV7 m = some u → w.newV7 n = some u → m = n
  ne_nil : ∀ n, w.newV7 n ≠ some Uuid.nil

/-- The vault and the random source answer every call. -/
structure Outside.Working (w : Outside) : Prop where
  newV7 : ∀ n, ∃ u, w.newV7 n = some u ∧ u ≠ Uuid.nil
  newSubject : ∀ n, (w.newSubject n).isSome
  put : ∀ n secret, ∃ ref, w.put n secret = some ref ∧ ref ≠ []

section Constructors

variable (w : Outside) (identityId : Uuid)

def newUuid {ε : Type} (err : ε) : Method Calls ε Uuid := do
  let c ← get
  modify fun c => { c with drawn := c.drawn+1 }
  match w.newV7 c.drawn with
  | none => throw err
  | some id => pure id

def newCredential (t : FactorType) : Method Calls CredentialError Credential := do
  refuseIf (identityId = Uuid.nil) (.invalidCredential "identidade nula")
  let id ← newUuid w .uuid
  pure ⟨id, identityId, t, defaultAal t, [], [], [], [], []⟩

def newPasswordCredential (verifier : Bytes) (algo salt : GoString) :
    Method Calls CredentialError Credential := do
  refuseIf (verifier = []) (.invalidCredential "verifier de senha vazio")
  let c ← newCredential w identityId .password
  pure { c with verifier := verifier, params := [("algo", algo), ("salt", salt)] }

def newTotpCredential (secretRef : GoString) : Method Calls CredentialError Credential := do
  refuseIf (secretRef = []) (.invalidCredential "secretRef de TOTP vazio")
  let c ← newCredential w identityId .totp
  pure { c with secretRef := secretRef }

def newWebAuthnCredential (publicMaterial : Bytes) : Method Calls CredentialError Credential := do
  refuseIf (publicMaterial = []) (.invalidCredential "material público WebAuthn vazio")
  let c ← newCredential w identityId .webAuthn
  pure { c with publicMaterial := publicMaterial }

def newRecoveryCodeCredential (codeHash : Bytes) : Method Calls CredentialError Credential := do
  refuseIf (codeHash = []) (.invalidCredential "hash de recovery code vazio")
  let c ← newCredential w identityId .recoveryCode
  pure { c with verifier := codeHash }

variable {w identityId} {c c' : Calls}

/-- What a constructor leaves: a credential of its factor, under the next id that is drawn. -/
structure Minted (w : Outside) (identityId : Uuid) (t : FactorType) (c c' : Calls)
    (cred : Credential) : Prop where
  type : cred.type = t
  identity : cred.identityId = identityId
  id : w.newV7 c.drawn = some cred.id
  drawn : c'.drawn = c.drawn+1

theorem newCredential_ok {t : FactorType} {cred : Credential}
    (h : (newCredential w identityId t).call c = (.ok cred, c')) :
    Minted w identityId t c c' cred := by
  obtain ⟨-, h⟩ := (refuseIf_bind_ok _).mp h
  obtain ⟨id, d, hid, h⟩ := (bind_ok _).mp h
  obtain ⟨rfl, rfl⟩ := (pure_ok _).mp h
  rw [newUuid, call_get_bind, call_modify_bind] at hid
  cases hn : w.newV7 c.drawn with
  | none =>
    rw [hn] at hid
    cases hid
  | some u =>
    rw [hn] at hid
    cases hid
    exact ⟨rfl, rfl, hn, rfl⟩

theorem filled_ok {t : FactorType} {p : Prop} [Decidable p] {err : CredentialError}
    {fill : Credential → Credential} {cred : Credential}
    (h : (refuseIf p err >>= fun _ => newCredential w identityId t >>= fun made =>
      pure (fill made)).call c = (.ok cred, c')) :
    ∃ made, Minted w identityId t c c' made ∧ cred = fill made := by
  obtain ⟨-, h⟩ := (refuseIf_bind_ok _).mp h
  obtain ⟨made, d, hmade, h⟩ := (bind_ok _).mp h
  obtain ⟨rfl, rfl⟩ := (pure_ok _).mp h
  exact ⟨made, newCredential_ok hmade, rfl⟩

theorem newRecoveryCodeCredential_ok {codeHash : Bytes} {cred : Credential}
    (h : (newRecoveryCodeCredential w identityId codeHash).call c = (.ok cred, c')) :
    Minted w identityId .recoveryCode c c' cred ∧ cred.verifier = codeHash := by
  obtain ⟨made, ⟨ht, hi, hid, hd⟩, rfl⟩ := filled_ok h
  exact ⟨⟨ht, hi, hid, hd⟩, rfl⟩

theorem newPasswordCredential_ok {verifier : Bytes} {algo salt : GoString} {cred : Credential}
    (h : (newPasswordCredential w identityId verifier algo salt).call c = (.ok cred, c')) :
    Minted w identityId .password c c' cred := by
  obtain ⟨made, ⟨ht, hi, hid, hd⟩, rfl⟩ := filled_ok h
  exact ⟨ht, hi, hid, hd⟩

theorem newTotpCredential_ok {secretRef : GoString} {cred : Credential}
    (h : (newTotpCredential w identityId secretRef).call c = (.ok cred, c')) :
    Minted w identityId .totp c c' cred := by
  obtain ⟨made, ⟨ht, hi, hid, hd⟩, rfl⟩ := filled_ok h
  exact ⟨ht, hi, hid, hd⟩

theorem newWebAuthnCredential_ok {publicMaterial : Bytes} {cred : Credential}
    (h : (newWebAuthnCredential w identityId publicMaterial).call c = (.ok cred, c')) :
    Minted w identityId .webAuthn c c' cred := by
  obtain ⟨made, ⟨ht, hi, hid, hd⟩, rfl⟩ := filled_ok h
  exact ⟨ht, hi, hid, hd⟩

theorem newUuid_returns {ε : Type} {err : ε} (hw : w.Working) :
    (newUuid w err).Returns (· ≠ Uuid.nil) := by
  apply returns_get_bind
  intro c
  apply (returns_modify _).bind
  intro _ _
  obtain ⟨u, hu, hne⟩ := hw.newV7 c.drawn
  rw [hu]
  exact returns_pure hne

theorem newCredential_returns {t : FactorType} (hw : w.Working) (hid : identityId ≠ Uuid.nil) :
    (newCredential w identityId t).Returns fun _ => True := by
  apply (returns_refuseIf hid).bind
  intro _ _
  apply (newUuid_returns hw).bind
  exact fun _ _ => returns_pure trivial

theorem filled_returns {t : FactorType} {p : Prop} [Decidable p] {err : CredentialError}
    {fill : Credential → Credential} (hw : w.Working) (hid : identityId ≠ Uuid.nil) (hp : ¬p) :
    (refuseIf p err >>= fun _ => newCredential w identityId t >>= fun made =>
      pure (fill made)).Returns fun _ => True := by
  apply (returns_refuseIf hp).bind
  intro _ _
  exact (newCredential_returns hw hid).bind fun _ _ => returns_pure trivial

theorem newPasswordCredential_returns {verifier : Bytes} {algo salt : GoString} (hw : w.Working)
    (hid : identityId ≠ Uuid.nil) (hne : verifier ≠ []) :
    (newPasswordCredential w identityId verifier algo salt).Returns fun _ => True :=
  filled_returns hw hid hne

theorem newTotpCredential_returns {secretRef : GoString} (hw : w.Working)
    (hid : identityId ≠ Uuid.nil) (hne : secretRef ≠ []) :
    (newTotpCredential w identityId secretRef).Returns fun _ => True :=
  filled_returns hw hid hne

theorem newWebAuthnCredential_returns {publicMaterial : Bytes} (hw : w.Working)
    (hid : identityId ≠ Uuid.nil) (hne : publicMaterial ≠ []) :
    (newWebAuthnCredential w identityId publicMaterial).Returns fun _ => True :=
  filled_returns hw hid hne

theorem newRecoveryCodeCredential_returns {codeHash : Bytes} (hw : w.Working)
    (hid : identityId ≠ Uuid.nil) (hne : codeHash ≠ []) :
    (newRecoveryCodeCredential w identityId codeHash).Returns fun _ => True :=
  filled_returns hw hid hne

end Constructors

section RecoveryCodes

variable (lower : Char → Char)

/-- `strings.ToLower`; `lower` is `unicode.ToLower`. A malformed byte becomes U+FFFD. -/
def toLower (s : GoString) : GoString :=
  utf8 (String.ofList ((runes s).map fun r => lower r.replaced))

def isSeparator (c : Char) : Bool := c = '-' || c = ' ' || c = '\t'

def normalizeRecoveryCode (code : GoString) : GoString :=
  utf8 (String.ofList (((runes (toLower lower code)).map Rune.replaced).filter
    fun c => !isSeparator c))

def hashRecoveryCode (code : GoString) : Bytes := Sha256.sha256 (normalizeRecoveryCode lower code)

/-- `MatchRecoveryCode`: of the credentials that the code satisfies, the last one. -/
def matchRecoveryCode (creds : List Credential) (input : GoString) : Except String Uuid :=
  let want := hashRecoveryCode lower input
  let matched := creds.foldl (fun matched c =>
    if c.type ≠ .recoveryCode then matched
    else if c.verifier = want then c.id
    else matched) Uuid.nil
  if matched = Uuid.nil then .error "recovery: código não corresponde a nenhum código válido"
  else .ok matched

variable {lower}

theorem foldl_last {α β : Type} (p : α → Prop) [DecidablePred p] (f : α → β) (b : β) (l : List α) :
    (l.foldl (fun b a => if p a then f a else b) b = b ∧ ∀ a ∈ l, ¬p a) ∨
      ∃ a ∈ l, p a ∧ l.foldl (fun b a => if p a then f a else b) b = f a := by
  induction l generalizing b with
  | nil => exact Or.inl ⟨rfl, fun a h => by cases h⟩
  | cons a l ih =>
    rw [List.foldl_cons]
    rcases ih (if p a then f a else b) with ⟨heq, hnone⟩ | ⟨a', hm, hp, heq⟩
    · by_cases hp : p a
      · exact Or.inr ⟨a, List.mem_cons_self, hp, by rw [heq, if_pos hp]⟩
      · refine Or.inl ⟨by rw [heq, if_neg hp], fun a' hm => ?_⟩
        rcases List.mem_cons.mp hm with rfl | hm
        · exact hp
        · exact hnone a' hm
    · exact Or.inr ⟨a', List.mem_cons_of_mem a hm, hp, heq⟩

def Satisfies (lower : Char → Char) (code : GoString) (c : Credential) : Prop :=
  c.type = .recoveryCode ∧ c.verifier = hashRecoveryCode lower code

instance (code : GoString) (c : Credential) : Decidable (Satisfies lower code c) :=
  inferInstanceAs (Decidable (_ ∧ _))

theorem matchRecoveryCode_cases {creds : List Credential} (hids : ∀ c ∈ creds, c.id ≠ Uuid.nil)
    (code : GoString) :
    ((∃ err, matchRecoveryCode lower creds code = .error err) ∧ ∀ c ∈ creds, ¬Satisfies lower code c) ∨
      ∃ c ∈ creds, Satisfies lower code c ∧ matchRecoveryCode lower creds code = .ok c.id := by
  have hstep : (fun (matched : Uuid) (c : Credential) => if c.type ≠ .recoveryCode then matched
      else if c.verifier = hashRecoveryCode lower code then c.id else matched) =
      fun matched c => if Satisfies lower code c then c.id else matched := by
    funext matched c
    by_cases ht : c.type = .recoveryCode
    · by_cases hv : c.verifier = hashRecoveryCode lower code
      · rw [if_neg (not_not.mpr ht), if_pos hv, if_pos ⟨ht, hv⟩]
      · rw [if_neg (not_not.mpr ht), if_neg hv, if_neg fun h => hv h.2]
    · rw [if_pos ht, if_neg fun h => ht h.1]
  simp only [matchRecoveryCode, hstep]
  rcases foldl_last (Satisfies lower code) (fun c : Credential => c.id) Uuid.nil creds with
    ⟨heq, hnone⟩ | ⟨c, hm, hp, heq⟩
  · rw [heq, if_pos rfl]
    exact Or.inl ⟨⟨_, rfl⟩, hnone⟩
  · rw [heq, if_neg (hids c hm)]
    exact Or.inr ⟨c, hm, hp, rfl⟩

end RecoveryCodes

end ArchGuard
