import ArchGuard.Credential

/-! The migration of a legacy account's credentials, and what its recovery codes still open. -/
namespace ArchGuard.Migration
open GoMethod GoText Method

/-- The credential material of a legacy account, secrets in the clear. -/
structure LegacyCredentials where
  passwordHash : GoString
  passwordSalt : GoString
  passwordType : GoString
  totpSecret : GoString
  recoveryCodes : List GoString
  webAuthn : List Bytes
  deriving DecidableEq, Repr

structure MigratedCredentials where
  credentials : List Credential
  forcePasswordReset : Bool
  deriving DecidableEq, Repr

inductive MigrationError
  | nullIdentity
  | vault
  | credential (factor : String) (err : CredentialError)
  deriving DecidableEq, Repr

def MigrationError.text : MigrationError → String
  | .nullIdentity => "credmigration: identidade nula"
  | .vault => "credmigration: selagem do seed TOTP no cofre falhou"
  | .credential factor err => "credmigration: " ++ factor ++ ": " ++ err.text

/-- `HashRecoveryCode` of the migration: of the code as it comes. -/
def hashLegacyCode (code : GoString) : Bytes := Sha256.sha256 code

def isPlaintextScheme (passwordType : GoString) : Bool :=
  passwordType = [] || passwordType = utf8 "plain"

abbrev Migrating (α : Type) := Method Calls MigrationError α

/-- An error of a constructor, under the factor that was to be built. -/
def labelled {α : Type} (factor : String) (m : Method Calls CredentialError α) : Migrating α :=
  within id (fun _ c => c) (.credential factor) m

section Migrate

variable (w : Outside) (identityId : Uuid)

def putSecret (secret : Bytes) : Migrating GoString := do
  let c ← get
  modify fun c => { c with puts := c.puts+1 }
  match w.put c.puts secret with
  | none => throw .vault
  | some ref => pure ref

/-- The credentials of a list of public keys or codes, of which empty ones are passed over. -/
def migrateEach (create : Bytes → Migrating Credential) : List Bytes → Migrating (List Credential)
  | [] => pure []
  | b :: bs =>
    if b = [] then migrateEach create bs
    else do
      let c ← create b
      let cs ← migrateEach create bs
      pure (c :: cs)

def migratePassword (lc : LegacyCredentials) : Migrating (List Credential) :=
  if lc.passwordHash = [] || isPlaintextScheme lc.passwordType then pure []
  else do
    let c ← labelled "senha" (newPasswordCredential w identityId lc.passwordHash lc.passwordType
      lc.passwordSalt)
    pure [c]

def migrateTotp (lc : LegacyCredentials) : Migrating (List Credential) :=
  if lc.totpSecret = [] then pure []
  else do
    let ref ← putSecret w lc.totpSecret
    let c ← labelled "TOTP" (newTotpCredential w identityId ref)
    pure [c]

def migrate (lc : LegacyCredentials) : Migrating MigratedCredentials := do
  refuseIf (identityId = Uuid.nil) .nullIdentity
  let password ← migratePassword w identityId lc
  let totp ← migrateTotp w identityId lc
  let codes ← migrateEach (fun code => labelled "recovery code"
    (newRecoveryCodeCredential w identityId (hashLegacyCode code))) lc.recoveryCodes
  let keys ← migrateEach (fun pub => labelled "WebAuthn" (newWebAuthnCredential w identityId pub))
    lc.webAuthn
  pure ⟨password ++ totp ++ codes ++ keys,
    lc.passwordHash ≠ [] && isPlaintextScheme lc.passwordType⟩

variable {w identityId} {c c' : Calls}

theorem labelled_ok {α : Type} {factor : String} {m : Method Calls CredentialError α} {a : α} :
    (labelled factor m).call c = (.ok a, c') ↔ m.call c = (.ok a, c') := by
  rw [labelled, within_ok]
  simp only [id_eq, exists_eq_right]

/-- Credentials of one identity whose ids were drawn one after the other. -/
structure MintedAll (w : Outside) (identityId : Uuid) (c c' : Calls) (creds : List Credential) :
    Prop where
  identity : ∀ cred ∈ creds, cred.identityId = identityId
  drawn : ∀ cred ∈ creds, ∃ n, c.drawn ≤ n ∧ n < c'.drawn ∧ w.newV7 n = some cred.id
  mono : c.drawn ≤ c'.drawn
  nodup : w.Fresh → (creds.map (·.id)).Nodup

theorem mintedAll_nil (h : c.drawn ≤ c'.drawn) : MintedAll w identityId c c' [] :=
  ⟨fun _ hm => absurd hm List.not_mem_nil, fun _ hm => absurd hm List.not_mem_nil, h,
    fun _ => List.nodup_nil⟩

theorem mintedAll_singleton {t : FactorType} {cred : Credential}
    (h : Minted w identityId t c c' cred) : MintedAll w identityId c c' [cred] := by
  have hlt : c.drawn < c'.drawn := by
    rw [h.drawn]
    exact Nat.lt_succ_self _
  refine ⟨fun d hd => ?_, fun d hd => ?_, hlt.le, fun _ => List.nodup_singleton _⟩
  · exact List.mem_singleton.mp hd ▸ h.identity
  · exact ⟨c.drawn, le_refl _, hlt, List.mem_singleton.mp hd ▸ h.id⟩

/-- Later draws do not repeat an id. -/
theorem MintedAll.append {c'' : Calls} {creds creds' : List Credential}
    (h : MintedAll w identityId c c' creds) (h' : MintedAll w identityId c' c'' creds') :
    MintedAll w identityId c c'' (creds ++ creds') := by
  refine ⟨fun d hd => ?_, fun d hd => ?_, h.mono.trans h'.mono, fun hw => ?_⟩
  · rcases List.mem_append.mp hd with hd | hd
    · exact h.identity d hd
    · exact h'.identity d hd
  · rcases List.mem_append.mp hd with hd | hd
    · obtain ⟨n, hn, hlt, hid⟩ := h.drawn d hd
      exact ⟨n, hn, hlt.trans_le h'.mono, hid⟩
    · obtain ⟨n, hn, hlt, hid⟩ := h'.drawn d hd
      exact ⟨n, h.mono.trans hn, hlt, hid⟩
  · rw [List.map_append]
    refine List.nodup_append.mpr ⟨h.nodup hw, h'.nodup hw, fun u hu v hv he => ?_⟩
    obtain ⟨d, hd, rfl⟩ := List.mem_map.mp hu
    obtain ⟨d', hd', rfl⟩ := List.mem_map.mp hv
    obtain ⟨m, -, hm, hidm⟩ := h.drawn d hd
    obtain ⟨n, hn, -, hidn⟩ := h'.drawn d' hd'
    have hmn : m = n := hw.distinct m n d.id hidm (he ▸ hidn)
    omega

theorem migrateEach_ok {create : Bytes → Migrating Credential} {t : FactorType}
    (made : Bytes → Credential → Prop)
    (hcreate : ∀ b c cred c', (create b).call c = (.ok cred, c') →
      Minted w identityId t c c' cred ∧ made b cred)
    {bs : List Bytes} {creds : List Credential}
    (h : (migrateEach create bs).call c = (.ok creds, c')) :
    MintedAll w identityId c c' creds ∧ (∀ cred ∈ creds, cred.type = t) ∧
      List.Forall₂ made (bs.filter (· ≠ [])) creds := by
  induction bs generalizing c creds with
  | nil =>
    obtain ⟨rfl, rfl⟩ := (pure_ok _).mp h
    exact ⟨mintedAll_nil (le_refl _), fun _ hm => absurd hm List.not_mem_nil, .nil⟩
  | cons b bs ih =>
    rw [migrateEach, call_ite] at h
    by_cases hb : b = []
    · rw [if_pos hb] at h
      rw [List.filter_cons_of_neg (by simp [hb])]
      exact ih h
    · rw [if_neg hb] at h
      obtain ⟨cred, d, hcred, h⟩ := (bind_ok _).mp h
      obtain ⟨rest, d', hrest, h⟩ := (bind_ok _).mp h
      obtain ⟨rfl, rfl⟩ := (pure_ok _).mp h
      obtain ⟨hmint, hmade⟩ := hcreate b c cred d hcred
      obtain ⟨hall, htype, heach⟩ := ih hrest
      rw [List.filter_cons_of_pos (by simp [hb])]
      refine ⟨(mintedAll_singleton hmint).append hall, fun cred' hm => ?_, .cons hmade heach⟩
      rcases List.mem_cons.mp hm with rfl | hm
      · exact hmint.type
      · exact htype cred' hm

theorem putSecret_ok {secret : Bytes} {ref : GoString}
    (h : (putSecret w secret).call c = (.ok ref, c')) : c'.drawn = c.drawn := by
  rw [putSecret, call_get_bind, call_modify_bind] at h
  cases hp : w.put c.puts secret with
  | none =>
    rw [hp] at h
    cases h
  | some r =>
    rw [hp] at h
    cases h
    rfl

theorem migratePassword_ok {lc : LegacyCredentials} {creds : List Credential}
    (h : (migratePassword w identityId lc).call c = (.ok creds, c')) :
    MintedAll w identityId c c' creds ∧ ∀ cred ∈ creds, cred.type = .password := by
  rw [migratePassword, call_ite] at h
  split at h
  · obtain ⟨rfl, rfl⟩ := (pure_ok _).mp h
    exact ⟨mintedAll_nil (le_refl _), fun _ hm => absurd hm List.not_mem_nil⟩
  · obtain ⟨cred, d, hcred, h⟩ := (bind_ok _).mp h
    obtain ⟨rfl, rfl⟩ := (pure_ok _).mp h
    have hmint := newPasswordCredential_ok (labelled_ok.mp hcred)
    exact ⟨mintedAll_singleton hmint, fun _ hm => List.mem_singleton.mp hm ▸ hmint.type⟩

theorem migrateTotp_ok {lc : LegacyCredentials} {creds : List Credential}
    (h : (migrateTotp w identityId lc).call c = (.ok creds, c')) :
    MintedAll w identityId c c' creds ∧ ∀ cred ∈ creds, cred.type = .totp := by
  rw [migrateTotp, call_ite] at h
  split at h
  · obtain ⟨rfl, rfl⟩ := (pure_ok _).mp h
    exact ⟨mintedAll_nil (le_refl _), fun _ hm => absurd hm List.not_mem_nil⟩
  · obtain ⟨ref, d, href, h⟩ := (bind_ok _).mp h
    obtain ⟨cred, d', hcred, h⟩ := (bind_ok _).mp h
    obtain ⟨rfl, rfl⟩ := (pure_ok _).mp h
    have hmint := newTotpCredential_ok (labelled_ok.mp hcred)
    have hput : MintedAll w identityId c d [] := mintedAll_nil (putSecret_ok href).ge
    exact ⟨hput.append (mintedAll_singleton hmint),
      fun _ hm => List.mem_singleton.mp hm ▸ hmint.type⟩

theorem filter_recovery_of_type {creds : List Credential} {t : FactorType} (ht : t ≠ .recoveryCode)
    (h : ∀ cred ∈ creds, cred.type = t) : creds.filter (·.type = .recoveryCode) = [] := by
  apply List.filter_eq_nil_iff.mpr
  intro cred hm
  simpa only [decide_eq_true_eq, h cred hm] using ht

theorem migrate_parts {lc : LegacyCredentials} {res : MigratedCredentials}
    (h : (migrate w identityId lc).call c = (.ok res, c')) :
    ∃ password totp codes keys c₁ c₂ c₃,
      (migratePassword w identityId lc).call c = (.ok password, c₁) ∧
      (migrateTotp w identityId lc).call c₁ = (.ok totp, c₂) ∧
      (migrateEach (fun code => labelled "recovery code"
        (newRecoveryCodeCredential w identityId (hashLegacyCode code)))
          lc.recoveryCodes).call c₂ = (.ok codes, c₃) ∧
      (migrateEach (fun pub => labelled "WebAuthn" (newWebAuthnCredential w identityId pub))
        lc.webAuthn).call c₃ = (.ok keys, c') ∧
      res = ⟨password ++ totp ++ codes ++ keys,
        lc.passwordHash ≠ [] && isPlaintextScheme lc.passwordType⟩ := by
  obtain ⟨-, h⟩ := (refuseIf_bind_ok _).mp h
  obtain ⟨password, c₁, hpassword, h⟩ := (bind_ok _).mp h
  obtain ⟨totp, c₂, htotp, h⟩ := (bind_ok _).mp h
  obtain ⟨codes, c₃, hcodes, h⟩ := (bind_ok _).mp h
  obtain ⟨keys, c₄, hkeys, h⟩ := (bind_ok _).mp h
  obtain ⟨hres, rfl⟩ := (pure_ok _).mp h
  exact ⟨password, totp, codes, keys, c₁, c₂, c₃, hpassword, htotp, hcodes, hkeys, hres.symm⟩

/-- What a migration leaves: the credentials of an identity, with a recovery code for each legacy
code that is not empty, in order, and no other. -/
theorem migrate_ok {lc : LegacyCredentials} {res : MigratedCredentials}
    (h : (migrate w identityId lc).call c = (.ok res, c')) :
    MintedAll w identityId c c' res.credentials ∧
      List.Forall₂ (fun code cred => cred.verifier = hashLegacyCode code)
        (lc.recoveryCodes.filter (· ≠ [])) (res.credentials.filter (·.type = .recoveryCode)) := by
  obtain ⟨password, totp, codes, keys, c₁, c₂, c₃, hpassword, htotp, hcodes, hkeys, rfl⟩ :=
    migrate_parts h
  obtain ⟨hpm, hpt⟩ := migratePassword_ok hpassword
  obtain ⟨htm, htt⟩ := migrateTotp_ok htotp
  obtain ⟨hcm, hct, hcf⟩ := migrateEach_ok (fun code cred => cred.verifier = hashLegacyCode code)
    (fun _ _ _ _ hc => newRecoveryCodeCredential_ok (labelled_ok.mp hc)) hcodes
  obtain ⟨hkm, hkt, -⟩ := migrateEach_ok (fun _ _ => True)
    (fun _ _ _ _ hc => ⟨newWebAuthnCredential_ok (labelled_ok.mp hc), trivial⟩) hkeys
  refine ⟨((hpm.append htm).append hcm).append hkm, ?_⟩
  have hself : codes.filter (·.type = .recoveryCode) = codes := by
    apply List.filter_eq_self.mpr
    intro cred hm
    exact decide_eq_true (hct cred hm)
  rw [List.filter_append, List.filter_append, List.filter_append, hself,
    filter_recovery_of_type (by decide) hpt, filter_recovery_of_type (by decide) htt,
    filter_recovery_of_type (by decide) hkt, List.append_nil]
  exact hcf

theorem migrateEach_returns {create : Bytes → Migrating Credential}
    (h : ∀ b, b ≠ [] → (create b).Returns fun _ => True) (bs : List Bytes) :
    (migrateEach create bs).Returns fun _ => True := by
  induction bs with
  | nil => exact returns_pure trivial
  | cons b bs ih =>
    rw [migrateEach]
    by_cases hb : b = []
    · rw [if_pos hb]
      exact ih
    · rw [if_neg hb]
      apply (h b hb).bind
      intro _ _
      exact ih.bind fun _ _ => returns_pure trivial

theorem hashLegacyCode_ne_nil (code : GoString) : hashLegacyCode code ≠ [] := by
  intro h
  have hlen := Sha256.length_sha256 code
  rw [hashLegacyCode] at h
  rw [h] at hlen
  cases hlen

theorem migratePassword_returns (hw : w.Working) (hid : identityId ≠ Uuid.nil)
    (lc : LegacyCredentials) : (migratePassword w identityId lc).Returns fun _ => True := by
  rw [migratePassword]
  split_ifs with h
  · exact returns_pure trivial
  · have hne : lc.passwordHash ≠ [] := by
      intro he
      simp [he] at h
    apply ((newPasswordCredential_returns hw hid hne).within).bind
    exact fun _ _ => returns_pure trivial

theorem putSecret_returns (hw : w.Working) (secret : Bytes) :
    (putSecret w secret).Returns (· ≠ []) := by
  apply returns_get_bind
  intro c
  apply (returns_modify _).bind
  intro _ _
  obtain ⟨ref, href, hne⟩ := hw.put c.puts secret
  rw [href]
  exact returns_pure hne

theorem migrateTotp_returns (hw : w.Working) (hid : identityId ≠ Uuid.nil)
    (lc : LegacyCredentials) : (migrateTotp w identityId lc).Returns fun _ => True := by
  rw [migrateTotp]
  split_ifs with h
  · exact returns_pure trivial
  · apply (putSecret_returns hw lc.totpSecret).bind
    intro ref hne
    apply ((newTotpCredential_returns hw hid hne).within).bind
    exact fun _ _ => returns_pure trivial

theorem migrate_returns (hw : w.Working) (hid : identityId ≠ Uuid.nil) (lc : LegacyCredentials) :
    (migrate w identityId lc).Returns fun _ => True := by
  apply (returns_refuseIf hid).bind
  intro _ _
  apply (migratePassword_returns hw hid lc).bind
  intro _ _
  apply (migrateTotp_returns hw hid lc).bind
  intro _ _
  -- no code hashes to the empty list, so each legacy code that is not empty has its credential
  have hcode (code : Bytes) (_ : code ≠ []) := newRecoveryCodeCredential_returns hw hid
    (hashLegacyCode_ne_nil code)
  apply (migrateEach_returns (fun code hne => (hcode code hne).within) lc.recoveryCodes).bind
  intro _ _
  apply (migrateEach_returns (fun pub hne =>
    (newWebAuthnCredential_returns hw hid hne).within) lc.webAuthn).bind
  exact fun _ _ => returns_pure trivial

end Migrate

section Verification

variable (lower : Char → Char)

/-- The recovery credential that the migration made for a code of the account. -/
def MadeFor (lc : LegacyCredentials) (res : MigratedCredentials) (code : GoString)
    (cred : Credential) : Prop :=
  (code, cred) ∈ (lc.recoveryCodes.filter (· ≠ [])).zip
    (res.credentials.filter (·.type = .recoveryCode))

/-- The code, presented as it was issued, is matched by a credential that was made for it. -/
def StillWorks (lc : LegacyCredentials) (res : MigratedCredentials) (code : GoString) : Prop :=
  ∃ cred, MadeFor lc res code cred ∧ matchRecoveryCode lower res.credentials code = .ok cred.id

/-- Two different texts, a code and the normal form of a code, under one digest. -/
def CodesCollide (codes : List GoString) : Prop :=
  ∃ a ∈ codes, ∃ b ∈ codes, a ≠ normalizeRecoveryCode lower b ∧
    Sha256.sha256 a = Sha256.sha256 (normalizeRecoveryCode lower b)

variable {lower} {w : Outside} {identityId : Uuid} {c c' : Calls} {lc : LegacyCredentials}
  {res : MigratedCredentials}

theorem madeFor_of_mem (h : List.Forall₂ (fun code cred => cred.verifier = hashLegacyCode code)
    (lc.recoveryCodes.filter (· ≠ [])) (res.credentials.filter (·.type = .recoveryCode)))
    {code : GoString} (hm : code ∈ lc.recoveryCodes) (hne : code ≠ []) :
    ∃ cred, MadeFor lc res code cred := by
  have hm : code ∈ lc.recoveryCodes.filter (· ≠ []) :=
    List.mem_filter.mpr ⟨hm, decide_eq_true hne⟩
  rw [← List.map_fst_zip h.length_eq.le] at hm
  obtain ⟨⟨a, cred⟩, hp, rfl⟩ := List.mem_map.mp hm
  exact ⟨cred, hp⟩

theorem madeFor_of_cred (h : List.Forall₂ (fun code cred => cred.verifier = hashLegacyCode code)
    (lc.recoveryCodes.filter (· ≠ [])) (res.credentials.filter (·.type = .recoveryCode)))
    {cred : Credential} (hm : cred ∈ res.credentials) (ht : cred.type = .recoveryCode) :
    ∃ code ∈ lc.recoveryCodes, MadeFor lc res code cred := by
  have hm : cred ∈ res.credentials.filter (·.type = .recoveryCode) :=
    List.mem_filter.mpr ⟨hm, decide_eq_true ht⟩
  rw [← List.map_snd_zip h.length_eq.ge] at hm
  obtain ⟨⟨code, d⟩, hp, rfl⟩ := List.mem_map.mp hm
  exact ⟨code, (List.mem_filter.mp (List.of_mem_zip hp).1).1, hp⟩

/-- Unless two texts collide, a migrated code still works exactly when it is its own normal form. -/
theorem recoveryCode_works_iff (hw : w.Fresh)
    (hmigrate : (migrate w identityId lc).call c = (.ok res, c'))
    (hcodes : ∀ code ∈ lc.recoveryCodes, code ≠ []) : CodesCollide lower lc.recoveryCodes ∨
      ∀ code ∈ lc.recoveryCodes,
        (StillWorks lower lc res code ↔ normalizeRecoveryCode lower code = code) := by
  by_cases hcol : CodesCollide lower lc.recoveryCodes
  · exact Or.inl hcol
  apply Or.inr
  intro code hcode
  have hfree (a b : GoString) (ha : a ∈ lc.recoveryCodes) (hb : b ∈ lc.recoveryCodes)
      (h : Sha256.sha256 a = Sha256.sha256 (normalizeRecoveryCode lower b)) :
      a = normalizeRecoveryCode lower b := by
    by_contra hne
    exact hcol ⟨a, ha, b, hb, hne, h⟩
  obtain ⟨hminted, hmade⟩ := migrate_ok hmigrate
  have hverifier {a : GoString} {cred : Credential} (h : MadeFor lc res a cred) :
      cred.verifier = Sha256.sha256 a := (List.forall₂_iff_zip.mp hmade).2 h
  have hids : ∀ cred ∈ res.credentials, cred.id ≠ Uuid.nil := by
    intro cred hm hnil
    obtain ⟨n, -, -, hn⟩ := hminted.drawn cred hm
    exact hw.ne_nil n (hnil ▸ hn)
  have hmem {a : GoString} {cred : Credential} (h : MadeFor lc res a cred) :
      cred ∈ res.credentials := (List.mem_filter.mp (List.of_mem_zip h).2).1
  obtain ⟨own, hown⟩ := madeFor_of_mem hmade hcode (hcodes code hcode)
  constructor
  · rintro ⟨cred, hcred, hmatch⟩
    -- the match names a credential under the digest of the normal form, and ids do not repeat
    rcases matchRecoveryCode_cases hids code with ⟨⟨err, herr⟩, -⟩ | ⟨cred', hm', hsat, hmatch'⟩
    · rw [herr] at hmatch
      cases hmatch
    · have hid : cred'.id = cred.id := Except.ok.inj (hmatch'.symm.trans hmatch)
      have hsame : cred' = cred :=
        List.inj_on_of_nodup_map (hminted.nodup hw) hm' (hmem hcred) hid
      have hdigest : Sha256.sha256 code = Sha256.sha256 (normalizeRecoveryCode lower code) := by
        rw [← hverifier hcred, ← hsame]
        exact hsat.2
      exact (hfree code code hcode hcode hdigest).symm
  · intro hnormal
    rcases matchRecoveryCode_cases hids code with ⟨-, hnone⟩ | ⟨cred, hm, hsat, hmatch⟩
    · refine absurd ⟨?_, ?_⟩ (hnone own (hmem hown))
      · exact of_decide_eq_true (List.mem_filter.mp (List.of_mem_zip hown).2).2
      · rw [hashRecoveryCode, hnormal]
        exact hverifier hown
    · obtain ⟨other, hother, hfor⟩ := madeFor_of_cred hmade hm hsat.1
      have hdigest : Sha256.sha256 other = Sha256.sha256 (normalizeRecoveryCode lower code) := by
        rw [← hverifier hfor]
        exact hsat.2
      have heq : other = code := (hfree other code hother hcode hdigest).trans hnormal
      exact ⟨cred, heq ▸ hfor, hmatch⟩

end Verification

namespace Sample

/-- A hundred UUIDs, and a vault that names its secrets by their number. -/
def outside : Outside where
  newV7 n := if n < 100 then some (BitVec.ofNat 128 (n+1)) else none
  newSubject n := some (toString n)
  put n _ := some (utf8 (toString n))
  byOrg _ orgs := orgs.reverse
  byOrg_perm _ orgs := List.reverse_perm orgs

theorem outside_fresh : outside.Fresh := by
  constructor
  · intro m n u hm hn
    simp only [outside, Option.ite_none_right_eq_some, Option.some.injEq] at hm hn
    have h := congrArg BitVec.toNat (hm.2.trans hn.2.symm)
    rw [BitVec.toNat_ofNat, BitVec.toNat_ofNat] at h
    omega
  · intro n h
    simp only [outside, Option.ite_none_right_eq_some, Option.some.injEq] at h
    have h := congrArg BitVec.toNat h.2
    rw [BitVec.toNat_ofNat, Uuid.nil, BitVec.toNat_ofNat] at h
    omega

/-- An account with a lower-case code and one in capitals. -/
def account : LegacyCredentials := ⟨[], [], [], [], [utf8 "abcd", utf8 "AB"], []⟩

def codes : MigratedCredentials := ⟨[
  ⟨1, 9, .recoveryCode, .aal2, Sha256.sha256 (utf8 "abcd"), [], [], [], []⟩,
  ⟨2, 9, .recoveryCode, .aal2, Sha256.sha256 (utf8 "AB"), [], [], [], []⟩], false⟩

theorem account_migrated : (migrate outside 9 account).call ⟨0, 0, 0⟩ = (.ok codes, ⟨2, 0, 0⟩) := by
  decide +kernel
end Sample

/-- The code in lower case works; the account's other code does not. -/
theorem recoveryCode_works_account : CodesCollide Char.toLower Sample.account.recoveryCodes ∨
    (StillWorks Char.toLower Sample.account Sample.codes (utf8 "abcd") ↔
      normalizeRecoveryCode Char.toLower (utf8 "abcd") = utf8 "abcd") := by
  have hcodes : CodesCollide Char.toLower Sample.account.recoveryCodes ∨
      ∀ code ∈ Sample.account.recoveryCodes, (StillWorks Char.toLower Sample.account Sample.codes
        code ↔ normalizeRecoveryCode Char.toLower code = code) :=
    recoveryCode_works_iff Sample.outside_fresh Sample.account_migrated (by decide +kernel)
  exact hcodes.imp_right fun hworks => hworks (utf8 "abcd") List.mem_cons_self

/-- A legacy code in capitals is refused after the migration. -/
theorem recoveryCode_refused :
    (migrate Sample.outside 9 Sample.account).call ⟨0, 0, 0⟩ = (.ok Sample.codes, ⟨2, 0, 0⟩) ∧
    utf8 "AB" ∈ Sample.account.recoveryCodes ∧
    ¬StillWorks Char.toLower Sample.account Sample.codes (utf8 "AB") := by
  refine ⟨Sample.account_migrated, List.mem_cons_of_mem _ List.mem_cons_self, ?_⟩
  rintro ⟨cred, -, hmatch⟩
  have hrefused : matchRecoveryCode Char.toLower Sample.codes.credentials (utf8 "AB") =
      .error "recovery: código não corresponde a nenhum código válido" := by
    decide +kernel
  rw [hrefused] at hmatch
  cases hmatch

end ArchGuard.Migration
