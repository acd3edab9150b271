import ArchGuard.IdentityFusion

/-! The factors that a fusion carries over, and those it only tells of. -/
namespace ArchGuard.Migration
open GoMethod GoText Method

def LegacyCredentials.usablePassword (lc : LegacyCredentials) : Prop :=
  lc.passwordHash ≠ [] ∧ isPlaintextScheme lc.passwordType = false

/-- What a migration makes of the material of an account. -/
structure Carried (w : Outside) (lc : LegacyCredentials) (creds : List Credential) : Prop where
  password : ∀ c ∈ creds, c.type = .password → lc.usablePassword
  verifier : lc.usablePassword → ∃ c ∈ creds, c.type = .password ∧ c.verifier = lc.passwordHash
  totp : ∀ c ∈ creds, c.type = .totp → lc.totpSecret ≠ []
  seed : lc.totpSecret ≠ [] →
    ∃ c ∈ creds, c.type = .totp ∧ ∃ n, w.put n lc.totpSecret = some c.secretRef
  codes : ∀ code ∈ lc.recoveryCodes, code ≠ [] →
    ∃ c ∈ creds, c.type = .recoveryCode ∧ c.verifier = hashLegacyCode code
  keys : ∀ pub ∈ lc.webAuthn, pub ≠ [] → ∃ c ∈ creds, c.type = .webAuthn ∧ c.publicMaterial = pub

section Migrate

variable {w : Outside} {identityId : Uuid} {c c' : Calls} {lc : LegacyCredentials}

theorem migratePassword_carries {creds : List Credential}
    (h : (migratePassword w identityId lc).call c = (.ok creds, c')) :
    (creds ≠ [] ↔ lc.usablePassword) ∧
      ∀ cred ∈ creds, cred.type = .password ∧ cred.verifier = lc.passwordHash := by
  rw [migratePassword, call_ite] at h
  split at h
  · rename_i hno
    obtain ⟨rfl, -⟩ := (pure_ok _).mp h
    refine ⟨iff_of_false (fun hne => hne rfl) fun husable => ?_, by simp⟩
    rw [husable.2, Bool.or_false, decide_eq_true_eq] at hno
    exact husable.1 hno
  · rename_i hyes
    obtain ⟨cred, d, hcred, h⟩ := (bind_ok _).mp h
    obtain ⟨rfl, -⟩ := (pure_ok _).mp h
    obtain ⟨made, hmint, rfl⟩ := filled_ok (labelled_ok.mp hcred)
    rw [Bool.or_eq_true, not_or, decide_eq_true_eq, Bool.not_eq_true] at hyes
    refine ⟨iff_of_true (List.cons_ne_nil _ _) hyes, fun cred hmem => ?_⟩
    rw [List.mem_singleton.mp hmem]
    exact ⟨hmint.type, rfl⟩

theorem putSecret_stored {secret : Bytes} {ref : GoString}
    (h : (putSecret w secret).call c = (.ok ref, c')) : ∃ n, w.put n secret = some ref := by
  rw [putSecret, call_get_bind, call_modify_bind] at h
  cases hp : w.put c.puts secret with
  | none =>
    rw [hp] at h
    cases h
  | some r =>
    rw [hp] at h
    cases h
    exact ⟨c.puts, hp⟩

theorem migrateTotp_carries {creds : List Credential}
    (h : (migrateTotp w identityId lc).call c = (.ok creds, c')) :
    (creds ≠ [] ↔ lc.totpSecret ≠ []) ∧
      ∀ cred ∈ creds, cred.type = .totp ∧ ∃ n, w.put n lc.totpSecret = some cred.secretRef := by
  rw [migrateTotp, call_ite] at h
  split at h
  · rename_i hno
    obtain ⟨rfl, -⟩ := (pure_ok _).mp h
    exact ⟨iff_of_false (fun hne => hne rfl) (not_not.mpr hno), by simp⟩
  · rename_i hyes
    obtain ⟨ref, d, href, h⟩ := (bind_ok _).mp h
    obtain ⟨cred, d', hcred, h⟩ := (bind_ok _).mp h
    obtain ⟨rfl, -⟩ := (pure_ok _).mp h
    obtain ⟨made, hmint, rfl⟩ := filled_ok (labelled_ok.mp hcred)
    refine ⟨iff_of_true (List.cons_ne_nil _ _) hyes, fun cred hmem => ?_⟩
    rw [List.mem_singleton.mp hmem]
    exact ⟨hmint.type, putSecret_stored href⟩

theorem exists_of_forall₂ {α β : Type} {R : α → β → Prop} {as : List α} {bs : List β}
    (h : List.Forall₂ R as bs) {a : α} (ha : a ∈ as) : ∃ b ∈ bs, R a b := by
  induction h with
  | nil => cases ha
  | cons hab _ ih =>
    rcases List.mem_cons.mp ha with rfl | ha
    · exact ⟨_, List.mem_cons_self, hab⟩
    · obtain ⟨b, hb, hR⟩ := ih ha
      exact ⟨b, List.mem_cons_of_mem _ hb, hR⟩

theorem migrateEach_carries {create : Bytes → Migrating Credential} {t : FactorType}
    (made : Bytes → Credential → Prop)
    (hcreate : ∀ b c cred c', (create b).call c = (.ok cred, c') →
      Minted w identityId t c c' cred ∧ made b cred)
    {bs : List Bytes} {creds : List Credential}
    (h : (migrateEach create bs).call c = (.ok creds, c')) :
    (∀ cred ∈ creds, cred.type = t) ∧
      ∀ b ∈ bs, b ≠ [] → ∃ cred ∈ creds, cred.type = t ∧ made b cred := by
  obtain ⟨-, htype, hmade⟩ := migrateEach_ok made hcreate h
  refine ⟨htype, fun b hb hne => ?_⟩
  obtain ⟨cred, hcred, hb⟩ := exists_of_forall₂ hmade
    (List.mem_filter.mpr ⟨hb, decide_eq_true hne⟩)
  exact ⟨cred, hcred, htype cred hcred, hb⟩

theorem migrate_carries {res : MigratedCredentials}
    (h : (migrate w identityId lc).call c = (.ok res, c')) :
    Carried w lc res.credentials ∧
      res.forcePasswordReset = (lc.passwordHash ≠ [] && isPlaintextScheme lc.passwordType) := by
  obtain ⟨password, totp, codes, keys, c₁, c₂, c₃, hpassword, htotp, hcodes, hkeys, rfl⟩ :=
    migrate_parts h
  refine ⟨?_, rfl⟩
  obtain ⟨hpn, hpt⟩ := migratePassword_carries hpassword
  obtain ⟨htn, htt⟩ := migrateTotp_carries htotp
  obtain ⟨hct, hcm⟩ := migrateEach_carries (fun code cred => cred.verifier = hashLegacyCode code)
    (fun _ _ _ _ hc => newRecoveryCodeCredential_ok (labelled_ok.mp hc)) hcodes
  obtain ⟨hkt, hkm⟩ := migrateEach_carries (fun pub cred => cred.publicMaterial = pub)
    (fun pub _ _ _ hc => by
      obtain ⟨made, ⟨ht, hi, hid, hd⟩, rfl⟩ := filled_ok (labelled_ok.mp hc)
      exact ⟨⟨ht, hi, hid, hd⟩, rfl⟩) hkeys
  -- a credential is of the part that made it
  have hparts (cred : Credential) : cred ∈ password ++ totp ++ codes ++ keys ↔
      ((cred ∈ password ∨ cred ∈ totp) ∨ cred ∈ codes) ∨ cred ∈ keys := by
    rw [List.mem_append, List.mem_append, List.mem_append]
  constructor
  · intro cred hcred htype
    rcases (hparts cred).mp hcred with ((hp | ht) | hc) | hk
    · exact hpn.mp (List.ne_nil_of_mem hp)
    · exact absurd ((htt cred ht).1.symm.trans htype) (by decide)
    · exact absurd ((hct cred hc).symm.trans htype) (by decide)
    · exact absurd ((hkt cred hk).symm.trans htype) (by decide)
  · intro husable
    obtain ⟨cred, hcred⟩ := List.exists_mem_of_ne_nil _ (hpn.mpr husable)
    exact ⟨cred, (hparts cred).mpr (Or.inl (Or.inl (Or.inl hcred))), hpt cred hcred⟩
  · intro cred hcred htype
    rcases (hparts cred).mp hcred with ((hp | ht) | hc) | hk
    · exact absurd ((hpt cred hp).1.symm.trans htype) (by decide)
    · exact htn.mp (List.ne_nil_of_mem ht)
    · exact absurd ((hct cred hc).symm.trans htype) (by decide)
    · exact absurd ((hkt cred hk).symm.trans htype) (by decide)
  · intro hseed
    obtain ⟨cred, hcred⟩ := List.exists_mem_of_ne_nil _ (htn.mpr hseed)
    exact ⟨cred, (hparts cred).mpr (Or.inl (Or.inl (Or.inr hcred))), htt cred hcred⟩
  · intro code hcode hne
    obtain ⟨cred, hcred, hmade⟩ := hcm code hcode hne
    exact ⟨cred, (hparts cred).mpr (Or.inl (Or.inr hcred)), hmade⟩
  · intro pub hpub hne
    obtain ⟨cred, hcred, hmade⟩ := hkm pub hpub hne
    exact ⟨cred, (hparts cred).mpr (Or.inr hcred), hmade⟩

end Migrate

section Fusion

variable {w : Outside} {organizationId : GoString → Option Uuid} {plan : Plan} {identityId : Uuid}
  {c c' : Calls}

/-- The material that an account of a fusion gives: all of the primary's, of another its keys. -/
def Plan.given (plan : Plan) (r : AccountRef) : LegacyCredentials :=
  if r.key = plan.approval.primary then plan.credentials r.key
  else { LegacyCredentials.empty with webAuthn := (plan.credentials r.key).webAuthn }

/-- What a fusion tells of an account that is not the primary. -/
def Plan.told (plan : Plan) (r : AccountRef) : List GoString :=
  if r.key = plan.approval.primary then [] else droppedOf r.key (plan.credentials r.key)

/-- The material that the approved account has. -/
def Plan.primary (plan : Plan) : LegacyCredentials := plan.credentials plan.approval.primary

theorem fuseAccount_carries {res fused : Fused} {r : AccountRef}
    (h : (fuseAccount w organizationId plan identityId res r).call c = (.ok fused, c')) :
    ∃ m : List Credential, Carried w (plan.given r) m ∧ fused.credentials = res.credentials ++ m ∧
      fused.droppedFactors = res.droppedFactors ++ plan.told r ∧
      fused.forcePasswordReset = if r.key = plan.approval.primary then
        plan.primary.passwordHash ≠ [] && isPlaintextScheme plan.primary.passwordType
      else res.forcePasswordReset := by
  rw [fuseAccount] at h
  cases horg : organizationId r.owner with
  | none =>
    rw [horg] at h
    cases h
  | some org =>
    rw [horg] at h
    obtain ⟨m, d, -, h⟩ := (bind_ok _).mp h
    dsimp only at h
    by_cases hp : r.key = plan.approval.primary
    · rw [if_pos hp] at h
      obtain ⟨migrated, d', hmigrated, h⟩ := (bind_ok _).mp h
      obtain ⟨rfl, -⟩ := (pure_ok _).mp h
      obtain ⟨t, hcall, -⟩ := within_ok.mp hmigrated
      obtain ⟨hcarried, hreset⟩ := migrate_carries hcall
      refine ⟨migrated.credentials, ?_, rfl, ?_, ?_⟩
      · rw [Plan.given, if_pos hp]
        exact hcarried
      · rw [Plan.told, if_pos hp, List.append_nil]
      · rw [if_pos hp, Plan.primary, ← hp]
        exact hreset
    · rw [if_neg hp] at h
      obtain ⟨migrated, d', hmigrated, h⟩ := (bind_ok _).mp h
      obtain ⟨rfl, -⟩ := (pure_ok _).mp h
      obtain ⟨t, hcall, -⟩ := within_ok.mp hmigrated
      obtain ⟨hcarried, -⟩ := migrate_carries hcall
      refine ⟨migrated.credentials, ?_, rfl, ?_, ?_⟩
      · rw [Plan.given, if_neg hp]
        exact hcarried
      · rw [Plan.told, if_neg hp]
      · rw [if_neg hp]

/-- What the accounts of a fusion leave, one after the other. -/
structure FusedFrom (w : Outside) (plan : Plan) (refs : List AccountRef) (res fused : Fused) :
    Prop where
  carried : ∃ parts : List (List Credential),
    List.Forall₂ (fun r m => Carried w (plan.given r) m) refs parts ∧
      fused.credentials = res.credentials ++ parts.flatten
  told : fused.droppedFactors = res.droppedFactors ++ refs.flatMap plan.told
  reset : fused.forcePasswordReset =
    if plan.approval.primary ∈ refs.map AccountRef.key then
      plan.primary.passwordHash ≠ [] && isPlaintextScheme plan.primary.passwordType
    else res.forcePasswordReset

theorem fuseAccounts_from {refs : List AccountRef} {res fused : Fused}
    (h : (fuseAccounts w organizationId plan identityId res refs).call c = (.ok fused, c')) :
    FusedFrom w plan refs res fused := by
  induction refs generalizing res c with
  | nil =>
    obtain ⟨rfl, -⟩ := (pure_ok _).mp h
    exact ⟨⟨[], .nil, (List.append_nil _).symm⟩, (List.append_nil _).symm, rfl⟩
  | cons r refs ih =>
    obtain ⟨res', d, hstep, h⟩ := (bind_ok _).mp h
    obtain ⟨m, hm, hcreds, htold, hreset⟩ := fuseAccount_carries hstep
    obtain ⟨⟨parts, hparts, hrest⟩, htold', hreset'⟩ := ih h
    refine ⟨⟨m :: parts, .cons hm hparts, ?_⟩, ?_, ?_⟩
    · rw [hrest, hcreds, List.flatten_cons, List.append_assoc]
    · rw [htold', htold, List.flatMap_cons, List.append_assoc]
    · rw [hreset', hreset, List.map_cons]
      by_cases hin : plan.approval.primary ∈ refs.map AccountRef.key
      · rw [if_pos hin, if_pos (List.mem_cons_of_mem _ hin)]
      · by_cases hp : r.key = plan.approval.primary
        · rw [if_neg hin, if_pos hp, if_pos (List.mem_cons.mpr (Or.inl hp.symm))]
        · have hno : plan.approval.primary ∉ r.key :: refs.map AccountRef.key :=
            fun hmem => (List.mem_cons.mp hmem).elim (fun he => hp he.symm) hin
          rw [if_neg hin, if_neg hp, if_neg hno]

theorem fuse_from {fused : Fused} (h : (fuse w organizationId plan).call c = (.ok fused, c')) :
    (∃ r ∈ plan.group.accounts, r.key = plan.approval.primary) ∧
      ∃ identity, FusedFrom w plan plan.group.accounts ⟨identity, [], [], false, []⟩ fused := by
  obtain ⟨⟨⟩, c₁, happroval, h⟩ := (bind_ok _).mp h
  obtain ⟨⟨⟩, c₂, -, h⟩ := (bind_ok _).mp h
  have hok : validateApproval plan = .ok () := by
    cases hv : validateApproval plan with
    | error err =>
      rw [hv] at happroval
      cases happroval
    | ok u => rfl
  refine ⟨(validateApproval_ok.mp hok).elected, ?_⟩
  cases hhash : hexDecode plan.group.emailHashHex with
  | none =>
    rw [hhash] at h
    cases h
  | some hash =>
    rw [hhash] at h
    obtain ⟨-, h⟩ := (refuseIf_bind_ok _).mp h
    obtain ⟨identity, c₃, -, h⟩ := (bind_ok _).mp h
    exact ⟨identity, fuseAccounts_from h⟩

end Fusion

def AccountKey.text (key : AccountKey) : GoString := key.owner ++ utf8 "/" ++ key.name

def passwordLine (key : AccountKey) : GoString :=
  utf8 "senha de " ++ key.text ++ utf8 " (prevalece a da conta primária)"

def totpLine (key : AccountKey) : GoString :=
  utf8 "TOTP de " ++ key.text ++ utf8 " (prevalece o da conta primária)"

def codesLine (key : AccountKey) : GoString :=
  utf8 "códigos de recuperação de " ++ key.text ++ utf8 " (prevalecem os da conta primária)"

/-- No factor type is lost: what an account of the group has, the fused identity has, and each
password, seed or set of codes that is not carried over is told of. -/
structure FactorsKept (w : Outside) (plan : Plan) (fused : Fused) : Prop where
  totp : (∃ r ∈ plan.group.accounts, (plan.credentials r.key).totpSecret ≠ []) →
    ∃ c ∈ fused.credentials, c.type = .totp
  webAuthn : ∀ r ∈ plan.group.accounts, ∀ pub ∈ (plan.credentials r.key).webAuthn, pub ≠ [] →
    ∃ c ∈ fused.credentials, c.type = .webAuthn ∧ c.publicMaterial = pub
  password : (∃ r ∈ plan.group.accounts, (plan.credentials r.key).usablePassword) →
    (∃ c ∈ fused.credentials, c.type = .password) ∨ fused.forcePasswordReset = true
  passwords : ∀ r ∈ plan.group.accounts, (plan.credentials r.key).passwordHash ≠ [] →
    (∃ c ∈ fused.credentials, c.type = .password ∧
      c.verifier = (plan.credentials r.key).passwordHash) ∨ passwordLine r.key ∈ fused.droppedFactors
  seeds : ∀ r ∈ plan.group.accounts, (plan.credentials r.key).totpSecret ≠ [] →
    (∃ c ∈ fused.credentials, c.type = .totp ∧
      ∃ n, w.put n (plan.credentials r.key).totpSecret = some c.secretRef) ∨
        totpLine r.key ∈ fused.droppedFactors
  codes : ∀ r ∈ plan.group.accounts, (plan.credentials r.key).recoveryCodes ≠ [] →
    (∀ code ∈ (plan.credentials r.key).recoveryCodes, code ≠ [] → ∃ c ∈ fused.credentials,
      c.type = .recoveryCode ∧ c.verifier = hashLegacyCode code) ∨
        codesLine r.key ∈ fused.droppedFactors

/-- The primary has a seed and a password where any account has, and its password is no plaintext
that another account's line would not cover. -/
structure PrimaryHasAll (plan : Plan) : Prop where
  totp : (∃ r ∈ plan.group.accounts, (plan.credentials r.key).totpSecret ≠ []) →
    plan.primary.totpSecret ≠ []
  password : (∃ r ∈ plan.group.accounts, (plan.credentials r.key).usablePassword) →
    plan.primary.passwordHash ≠ []
  plaintext : plan.primary.passwordHash ≠ [] → isPlaintextScheme plan.primary.passwordType = true →
    ∃ r ∈ plan.group.accounts, r.key ≠ plan.approval.primary ∧
      (plan.credentials r.key).passwordHash ≠ [] ∧ r.key.text = plan.approval.primary.text

section Preservation

variable {w : Outside} {organizationId : GoString → Option Uuid} {plan : Plan} {fused : Fused}
  {identity : Tenancy.Identity} {c c' : Calls}

theorem mem_droppedOf {key : AccountKey} {lc : LegacyCredentials} {line : GoString} :
    line ∈ droppedOf key lc ↔ (lc.passwordHash ≠ [] ∧ line = passwordLine key) ∨
      (lc.totpSecret ≠ [] ∧ line = totpLine key) ∨
      (lc.recoveryCodes ≠ [] ∧ line = codesLine key) := by
  rw [droppedOf, List.mem_append, List.mem_append, or_assoc]
  refine or_congr ?_ (or_congr ?_ ?_)
  · split_ifs with h <;> simp [h, passwordLine, AccountKey.text]
  · split_ifs with h <;> simp [h, totpLine, AccountKey.text]
  · split_ifs with h <;> simp [h, codesLine, AccountKey.text]

theorem passwordLine_inj {k k' : AccountKey} : passwordLine k = passwordLine k' ↔ k.text = k'.text := by
  rw [passwordLine, passwordLine, List.append_left_inj, List.append_right_inj]

theorem passwordLine_mem_droppedOf {key k : AccountKey} {lc : LegacyCredentials} :
    passwordLine k ∈ droppedOf key lc ↔ lc.passwordHash ≠ [] ∧ key.text = k.text := by
  have hp : (passwordLine k).head? = some 115 := rfl
  have ht : (totpLine key).head? = some 84 := rfl
  have hc : (codesLine key).head? = some 99 := rfl
  rw [mem_droppedOf, passwordLine_inj]
  constructor
  · rintro (⟨hne, he⟩ | ⟨-, he⟩ | ⟨-, he⟩)
    · exact ⟨hne, he.symm⟩
    · rw [he, ht] at hp
      cases hp
    · rw [he, hc] at hp
      cases hp
  · exact fun ⟨hne, he⟩ => Or.inl ⟨hne, he.symm⟩

theorem mem_of_carried {parts : List (List Credential)} {m : List Credential} (hm : m ∈ parts)
    (hcreds : fused.credentials = [] ++ parts.flatten) {cred : Credential} (hcred : cred ∈ m) :
    cred ∈ fused.credentials := by
  rw [hcreds, List.nil_append]
  exact List.mem_flatten.mpr ⟨m, hm, hcred⟩

theorem exists_part {refs : List AccountRef} {parts : List (List Credential)}
    (h : List.Forall₂ (fun r m => Carried w (plan.given r) m) refs parts) {m : List Credential}
    (hm : m ∈ parts) : ∃ r ∈ refs, Carried w (plan.given r) m :=
  exists_of_forall₂ h.flip hm

theorem given_password {r : AccountRef} (h : (plan.given r).usablePassword) :
    plan.primary.usablePassword := by
  rw [Plan.given] at h
  split_ifs at h with hp
  · rw [Plan.primary, ← hp]
    exact h
  · exact absurd rfl h.1

theorem given_totp {r : AccountRef} (h : (plan.given r).totpSecret ≠ []) :
    plan.primary.totpSecret ≠ [] := by
  rw [Plan.given] at h
  split_ifs at h with hp
  · rw [Plan.primary, ← hp]
    exact h
  · exact absurd rfl h

theorem given_webAuthn (r : AccountRef) :
    (plan.given r).webAuthn = (plan.credentials r.key).webAuthn := by
  rw [Plan.given]
  split_ifs <;> rfl

theorem given_primary {r : AccountRef} (hp : r.key = plan.approval.primary) :
    plan.given r = plan.primary := by
  rw [Plan.given, if_pos hp, hp, Plan.primary]

theorem told_mem {r : AccountRef} (hr : r ∈ plan.group.accounts)
    (hp : r.key ≠ plan.approval.primary)
    (h : FusedFrom w plan plan.group.accounts ⟨identity, [], [], false, []⟩ fused) {line : GoString}
    (hline : line ∈ droppedOf r.key (plan.credentials r.key)) : line ∈ fused.droppedFactors := by
  rw [h.told, List.nil_append]
  refine List.mem_flatMap.mpr ⟨r, hr, ?_⟩
  rw [Plan.told, if_neg hp]
  exact hline

theorem exists_maker (h : FusedFrom w plan plan.group.accounts ⟨identity, [], [], false, []⟩ fused)
    {cred : Credential} (hcred : cred ∈ fused.credentials) :
    ∃ m r, cred ∈ m ∧ Carried w (plan.given r) m := by
  obtain ⟨parts, hparts, hcreds⟩ := h.carried
  rw [hcreds, List.nil_append] at hcred
  obtain ⟨m, hm, hcred⟩ := List.mem_flatten.mp hcred
  obtain ⟨r, -, hcarried⟩ := exists_part hparts hm
  exact ⟨m, r, hcred, hcarried⟩

theorem usable_of_password
    (h : FusedFrom w plan plan.group.accounts ⟨identity, [], [], false, []⟩ fused)
    {cred : Credential} (hcred : cred ∈ fused.credentials) (htype : cred.type = .password) :
    plan.primary.usablePassword := by
  obtain ⟨m, r, hcred, hcarried⟩ := exists_maker h hcred
  exact given_password (hcarried.password cred hcred htype)

theorem exists_carried
    (h : FusedFrom w plan plan.group.accounts ⟨identity, [], [], false, []⟩ fused) {r : AccountRef}
    (hr : r ∈ plan.group.accounts) :
    ∃ m, Carried w (plan.given r) m ∧ ∀ cred ∈ m, cred ∈ fused.credentials := by
  obtain ⟨parts, hparts, hcreds⟩ := h.carried
  obtain ⟨m, hm, hcarried⟩ := exists_of_forall₂ hparts hr
  exact ⟨m, hcarried, fun cred => mem_of_carried hm hcreds⟩

theorem primaryHasAll_of_kept {p : AccountRef} (hp : p ∈ plan.group.accounts)
    (hkey : p.key = plan.approval.primary)
    (h : FusedFrom w plan plan.group.accounts ⟨identity, [], [], false, []⟩ fused)
    (hkept : FactorsKept w plan fused) : PrimaryHasAll plan := by
  constructor
  · intro hany
    obtain ⟨cred, hcred, htype⟩ := hkept.totp hany
    obtain ⟨m, r, hcred, hcarried⟩ := exists_maker h hcred
    exact given_totp (hcarried.totp cred hcred htype)
  · intro hany
    rcases hkept.password hany with ⟨cred, hcred, htype⟩ | hforced
    · exact (usable_of_password h hcred htype).1
    · rw [h.reset, if_pos (List.mem_map.mpr ⟨p, hp, hkey⟩), Bool.and_eq_true,
        decide_eq_true_eq] at hforced
      exact hforced.1
  · intro hne hplain
    have hpne : (plan.credentials p.key).passwordHash ≠ [] := by
      rw [hkey]
      exact hne
    rcases hkept.passwords p hp hpne with ⟨cred, hcred, htype, -⟩ | hline
    · rw [(usable_of_password h hcred htype).2] at hplain
      cases hplain
    -- the line is that of another account, as the primary has none
    · rw [h.told, List.nil_append] at hline
      obtain ⟨r, hr, hline⟩ := List.mem_flatMap.mp hline
      rw [Plan.told] at hline
      split_ifs at hline with hrp
      · cases hline
      · obtain ⟨hrne, htext⟩ := passwordLine_mem_droppedOf.mp hline
        exact ⟨r, hr, hrp, hrne, htext.trans (congrArg AccountKey.text hkey)⟩

theorem kept_of_primaryHasAll {p : AccountRef} (hp : p ∈ plan.group.accounts)
    (hkey : p.key = plan.approval.primary)
    (h : FusedFrom w plan plan.group.accounts ⟨identity, [], [], false, []⟩ fused)
    (hall : PrimaryHasAll plan) : FactorsKept w plan fused := by
  obtain ⟨m, hprimary, hm⟩ := exists_carried h hp
  rw [given_primary hkey] at hprimary
  constructor
  · intro hany
    obtain ⟨cred, hcred, htype, -⟩ := hprimary.seed (hall.totp hany)
    exact ⟨cred, hm cred hcred, htype⟩
  · intro r hr pub hpub hne
    obtain ⟨m', hcarried, hm'⟩ := exists_carried h hr
    rw [← given_webAuthn] at hpub
    obtain ⟨cred, hcred, hmade⟩ := hcarried.keys pub hpub hne
    exact ⟨cred, hm' cred hcred, hmade⟩
  · intro hany
    cases hplain : isPlaintextScheme plan.primary.passwordType with
    | true =>
      right
      rw [h.reset, if_pos (List.mem_map.mpr ⟨p, hp, hkey⟩), hplain, Bool.and_true]
      exact decide_eq_true (hall.password hany)
    | false =>
      left
      obtain ⟨cred, hcred, htype, -⟩ := hprimary.verifier ⟨hall.password hany, hplain⟩
      exact ⟨cred, hm cred hcred, htype⟩
  · intro r hr hne
    by_cases hrp : r.key = plan.approval.primary
    · rw [hrp] at hne ⊢
      cases hplain : isPlaintextScheme plan.primary.passwordType with
      | true =>
        obtain ⟨r', hr', hrp', hrne', htext⟩ := hall.plaintext hne hplain
        exact Or.inr (told_mem hr' hrp' h (passwordLine_mem_droppedOf.mpr ⟨hrne', htext⟩))
      | false =>
        obtain ⟨cred, hcred, hmade⟩ := hprimary.verifier ⟨hne, hplain⟩
        exact Or.inl ⟨cred, hm cred hcred, hmade⟩
    · exact Or.inr (told_mem hr hrp h (mem_droppedOf.mpr (Or.inl ⟨hne, rfl⟩)))
  · intro r hr hne
    by_cases hrp : r.key = plan.approval.primary
    · rw [hrp] at hne ⊢
      obtain ⟨cred, hcred, hmade⟩ := hprimary.seed hne
      exact Or.inl ⟨cred, hm cred hcred, hmade⟩
    · exact Or.inr (told_mem hr hrp h (mem_droppedOf.mpr (Or.inr (Or.inl ⟨hne, rfl⟩))))
  · intro r hr hne
    by_cases hrp : r.key = plan.approval.primary
    · rw [hrp]
      refine Or.inl fun code hcode hcne => ?_
      obtain ⟨cred, hcred, hmade⟩ := hprimary.codes code hcode hcne
      exact ⟨cred, hm cred hcred, hmade⟩
    · exact Or.inr (told_mem hr hrp h (mem_droppedOf.mpr (Or.inr (Or.inr ⟨hne, rfl⟩))))

/-- A fusion that is accepted keeps the factors exactly when the elected account has them. -/
theorem fuse_keeps_factors_iff (h : (fuse w organizationId plan).call c = (.ok fused, c')) :
    FactorsKept w plan fused ↔ PrimaryHasAll plan := by
  obtain ⟨⟨p, hp, hkey⟩, identity, hfrom⟩ := fuse_from h
  exact ⟨primaryHasAll_of_kept hp hkey hfrom, kept_of_primaryHasAll hp hkey hfrom⟩

end Preservation

namespace Sample

/-- The account at acme has a password, the one at beta a seed; `primary` is elected. -/
def split (primary : AccountKey) (acme beta : LegacyCredentials) : Plan where
  group := ⟨utf8 "ab", [anaAcme, anaBeta]⟩
  approval := ⟨utf8 "chief", utf8 "ab", primary⟩
  credentials key := if key = anaAcme.key then acme else if key = anaBeta.key then beta
    else LegacyCredentials.empty

def hashed : LegacyCredentials := ⟨utf8 "$2a$10$abc", [], utf8 "bcrypt", [], [], []⟩

def seeded : LegacyCredentials := ⟨[], [], [], utf8 "JBSWY3DP", [], []⟩

def both : LegacyCredentials := ⟨utf8 "$2a$10$abc", [], utf8 "bcrypt", utf8 "GEZDGNBV", [], []⟩

/-- Whether a fusion goes through. -/
def accepted (plan : Plan) : Bool :=
  match ((fuse outside organizations plan).call ⟨0, 0, 0⟩).1 with
  | .ok _ => true
  | .error _ => false

theorem exists_fused (plan : Plan) (h : accepted plan = true) :
    ∃ fused c', (fuse outside organizations plan).call ⟨0, 0, 0⟩ = (.ok fused, c') := by
  unfold accepted at h
  split at h
  · rename_i fused hok
    exact ⟨fused, _, Prod.ext hok rfl⟩
  · cases h

end Sample

/-- The primary has a password and a seed, and the other account's seed is told of. -/
theorem primary_factors_kept : ∃ fused c', (fuse Sample.outside Sample.organizations
    (Sample.split Sample.anaAcme.key Sample.both Sample.seeded)).call ⟨0, 0, 0⟩ = (.ok fused, c') ∧
      FactorsKept Sample.outside (Sample.split Sample.anaAcme.key Sample.both Sample.seeded) fused := by
  obtain ⟨fused, c', hfuse⟩ := Sample.exists_fused
    (Sample.split Sample.anaAcme.key Sample.both Sample.seeded) (by decide +kernel)
  have hplain : isPlaintextScheme
      (Sample.split Sample.anaAcme.key Sample.both Sample.seeded).primary.passwordType = false := by
    decide +kernel
  refine ⟨fused, c', hfuse, (fuse_keeps_factors_iff hfuse).mpr ⟨fun _ => ?_, fun _ => ?_, ?_⟩⟩
  · decide +kernel
  · decide +kernel
  · exact fun _ h => absurd (hplain.symm.trans h) Bool.false_ne_true

/-- The seed is that of the other account, which the approval does not elect. -/
theorem other_seed_lost : ∃ fused c', (fuse Sample.outside Sample.organizations
    (Sample.split Sample.anaAcme.key Sample.hashed Sample.seeded)).call ⟨0, 0, 0⟩ =
      (.ok fused, c') ∧ ¬FactorsKept Sample.outside
        (Sample.split Sample.anaAcme.key Sample.hashed Sample.seeded) fused := by
  obtain ⟨fused, c', hfuse⟩ := Sample.exists_fused
    (Sample.split Sample.anaAcme.key Sample.hashed Sample.seeded) (by decide +kernel)
  refine ⟨fused, c', hfuse, fun hkept => ?_⟩
  obtain ⟨⟨p, hp, hkey⟩, identity, hfrom⟩ := fuse_from hfuse
  have hseed := (primaryHasAll_of_kept hp hkey hfrom hkept).totp
    ⟨Sample.anaBeta, List.mem_cons_of_mem _ List.mem_cons_self, by decide +kernel⟩
  exact hseed (by decide +kernel)

end ArchGuard.Migration
