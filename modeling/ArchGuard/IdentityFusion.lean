import ArchGuard.CredentialMigration
import ArchGuard.IdentityDedup
import ArchGuard.Membership

/-! The fusion of an approved group into one identity, and the groups that it accepts. -/
namespace ArchGuard.Migration
open GoMethod GoText Method Tenancy

structure AccountKey where
  owner : GoString
  name : GoString
  deriving DecidableEq, Repr

def AccountRef.key (r : AccountRef) : AccountKey := ⟨r.owner, r.name⟩

/-- The decision of a person, bound to one group. -/
structure Approval where
  approvedBy : GoString
  groupEmailHashHex : GoString
  primary : AccountKey
  deriving DecidableEq, Repr

def LegacyCredentials.empty : LegacyCredentials := ⟨[], [], [], [], [], []⟩

/-- An approved fusion; an account without material has the empty one. -/
structure Plan where
  group : Group
  approval : Approval
  credentials : AccountKey → LegacyCredentials

structure Fused where
  identity : Identity
  memberships : List Membership
  credentials : List Credential
  forcePasswordReset : Bool
  droppedFactors : List GoString
  deriving DecidableEq, Repr

inductive FusionError
  | notApproved
  | approvalMismatch (detail : GoString)
  | groupNotFusable (detail : GoString)
  | invalidEmailHash
  | identity
  | unresolvedOrganization (owner : GoString)
  | membership (owner : GoString)
  | primaryCredentials (key : AccountKey) (err : MigrationError)
  | webAuthn (key : AccountKey) (err : MigrationError)
  deriving DecidableEq, Repr

def FusionError.text : FusionError → GoString
  | .notApproved => utf8 "identfusion: fusão exige aprovação humana explícita"
  | .approvalMismatch detail =>
    utf8 "identfusion: aprovação não corresponde ao grupo a fundir: " ++ detail
  | .groupNotFusable detail => utf8 ("identfusion: grupo não é fundível — deveria ter sido " ++
      "barrado como conflito no inventário: ") ++ detail
  | .invalidEmailHash => utf8 "identfusion: email_hash do grupo inválido"
  | .identity => utf8 "identfusion: criação da identidade fundida falhou"
  | .unresolvedOrganization owner =>
    utf8 "identfusion: organização " ++ quoteBytes owner ++ utf8 " não resolvida"
  | .membership owner => utf8 "identfusion: membership em " ++ quoteBytes owner
  | .primaryCredentials key err => utf8 "identfusion: credenciais da conta primária " ++
      key.owner ++ utf8 "/" ++ key.name ++ utf8 ": " ++ utf8 err.text
  | .webAuthn key err => utf8 "identfusion: WebAuthn da conta " ++
      key.owner ++ utf8 "/" ++ key.name ++ utf8 ": " ++ utf8 err.text

/-- The value of a digit of `hex.DecodeString`. -/
def hexDigitValue (b : UInt8) : Option ℕ :=
  if 48 ≤ b ∧ b ≤ 57 then some (b.toNat-48)
  else if 97 ≤ b ∧ b ≤ 102 then some (b.toNat-87)
  else if 65 ≤ b ∧ b ≤ 70 then some (b.toNat-55)
  else none

/-- `hex.DecodeString`. -/
def hexDecode : GoString → Option Bytes
  | [] => some []
  | [_] => none
  | a :: b :: rest => do
    let high ← hexDigitValue a
    let low ← hexDigitValue b
    let bytes ← hexDecode rest
    pure (UInt8.ofNat (16*high+low) :: bytes)

def validateApproval (plan : Plan) : Except FusionError Unit :=
  if plan.approval.approvedBy = [] then .error .notApproved
  else if plan.approval.groupEmailHashHex ≠ plan.group.emailHashHex then
    .error (.approvalMismatch (utf8 "aprovação para hash " ++
      quoteBytes plan.approval.groupEmailHashHex ++ utf8 ", grupo é " ++
      quoteBytes plan.group.emailHashHex))
  else if plan.group.accounts.any fun r => r.key = plan.approval.primary then .ok ()
  else .error (.approvalMismatch (utf8 "conta primária " ++ plan.approval.primary.owner ++ utf8 "/" ++
    plan.approval.primary.name ++ utf8 " não está no grupo"))

/-- The loop of `validateGroup`; `seen` are the organizations met so far. -/
def validateAccounts (seen : List GoString) : List AccountRef → Except FusionError Unit
  | [] => .ok ()
  | r :: rs =>
    if r.isServiceAccount then .error (.groupNotFusable
      (r.owner ++ utf8 "/" ++ r.name ++ utf8 " é conta de serviço (mixed_types)"))
    else if r.owner ∈ seen then .error (.groupNotFusable
      (utf8 "organização " ++ quoteBytes r.owner ++ utf8 " duplicada (same_org_duplicate, R3)"))
    else validateAccounts (r.owner :: seen) rs

def validateGroup (g : Group) : Except FusionError Unit :=
  if g.accounts.length < 2 then .error (.groupNotFusable
    (utf8 (toString g.accounts.length ++ " conta(s) — fusão pressupõe duplicidade")))
  else validateAccounts [] g.accounts

def droppedOf (key : AccountKey) (lc : LegacyCredentials) : List GoString :=
  let account := key.owner ++ utf8 "/" ++ key.name
  (if lc.passwordHash = [] then [] else
    [utf8 "senha de " ++ account ++ utf8 " (prevalece a da conta primária)"]) ++
  (if lc.totpSecret = [] then [] else
    [utf8 "TOTP de " ++ account ++ utf8 " (prevalece o da conta primária)"]) ++
  (if lc.recoveryCodes = [] then [] else
    [utf8 "códigos de recuperação de " ++ account ++ utf8 " (prevalecem os da conta primária)"])

abbrev Fusing (α : Type) := Method Calls FusionError α

section Fuse

variable (w : Outside) (organizationId : GoString → Option Uuid)

def ofAccount {α : Type} (wrap : MigrationError → FusionError) (m : Migrating α) : Fusing α :=
  within id (fun _ c => c) wrap m

/-- `NewIdentity`; `err` is what the caller makes of an error. -/
def newIdentity {ε : Type} (t : IdentityType) (emailHash : Bytes) (err : ε) :
    Method Calls ε Identity := do
  let id ← newUuid w err
  let c ← get
  modify fun c => { c with subjects := c.subjects+1 }
  match w.newSubject c.subjects with
  | none => throw err
  | some subject => pure ⟨id, subject, t, .active, emailHash⟩

/-- `NewMembership`, for the organization of `owner`. -/
def newMember {ε : Type} (identityId organizationId : Uuid) (err : ε) : Method Calls ε Membership := do
  let id ← newUuid w err
  match newMembership id identityId organizationId with
  | .error _ => throw err
  | .ok m => pure m

/-- One account of a fusion: the primary gives all its credentials, another its public keys. -/
def fuseAccount (plan : Plan) (identityId : Uuid) (res : Fused) (ref : AccountRef) : Fusing Fused :=
  match organizationId ref.owner with
  | none => throw (.unresolvedOrganization ref.owner)
  | some org => do
    let m ← newMember w identityId org (.membership ref.owner)
    let lc := plan.credentials ref.key
    if ref.key = plan.approval.primary then do
      let migrated ← ofAccount (.primaryCredentials ref.key) (migrate w identityId lc)
      pure { res with
        memberships := res.memberships ++ [m]
        credentials := res.credentials ++ migrated.credentials
        forcePasswordReset := migrated.forcePasswordReset }
    else do
      let migrated ← ofAccount (.webAuthn ref.key)
        (migrate w identityId { LegacyCredentials.empty with webAuthn := lc.webAuthn })
      pure { res with
        memberships := res.memberships ++ [m]
        credentials := res.credentials ++ migrated.credentials
        droppedFactors := res.droppedFactors ++ droppedOf ref.key lc }

def fuseAccounts (plan : Plan) (identityId : Uuid) (res : Fused) : List AccountRef → Fusing Fused
  | [] => pure res
  | ref :: refs => do
    let res ← fuseAccount w organizationId plan identityId res ref
    fuseAccounts plan identityId res refs

def ofValidation (v : Except FusionError Unit) : Fusing Unit :=
  match v with
  | .ok () => pure ()
  | .error err => throw err

/-- `Fuse`, with the collaborators that it requires. -/
def fuse (plan : Plan) : Fusing Fused := do
  ofValidation (validateApproval plan)
  ofValidation (validateGroup plan.group)
  match hexDecode plan.group.emailHashHex with
  | none => throw .invalidEmailHash
  | some hash => do
    refuseIf (hash = []) .invalidEmailHash
    let identity ← newIdentity w .human hash .identity
    fuseAccounts w organizationId plan identity.id ⟨identity, [], [], false, []⟩ plan.group.accounts

end Fuse

theorem validateAccounts_ok {seen : List GoString} {refs : List AccountRef} :
    validateAccounts seen refs = .ok () ↔ (∀ r ∈ refs, r.isServiceAccount = false) ∧
      (refs.map (·.owner)).Nodup ∧ ∀ r ∈ refs, r.owner ∉ seen := by
  induction refs generalizing seen with
  | nil => simp [validateAccounts]
  | cons r rs ih =>
    rw [validateAccounts, ite_error_eq_ok, ite_error_eq_ok, ih, List.forall_mem_cons,
      List.forall_mem_cons, List.map_cons, List.nodup_cons, Bool.not_eq_true]
    have hseen : (∀ r' ∈ rs, r'.owner ∉ r.owner :: seen) ↔
        r.owner ∉ rs.map (·.owner) ∧ ∀ r' ∈ rs, r'.owner ∉ seen := by
      simp only [List.mem_cons, not_or, List.mem_map, not_exists, not_and]
      constructor
      · exact fun h => ⟨fun r' hr' he => (h r' hr').1 he, fun r' hr' => (h r' hr').2⟩
      · exact fun h r' hr' => ⟨h.1 r' hr', h.2 r' hr'⟩
    rw [hseen]
    tauto

theorem validateGroup_ok {g : Group} : validateGroup g = .ok () ↔ 2 ≤ g.accounts.length ∧
    (∀ r ∈ g.accounts, r.isServiceAccount = false) ∧ (g.accounts.map (·.owner)).Nodup := by
  rw [validateGroup, ite_error_eq_ok, validateAccounts_ok, not_lt]
  simp

theorem validateGroup_of_perm {g k : Group} (h : g.accounts.Perm k.accounts) :
    validateGroup g = .ok () ↔ validateGroup k = .ok () := by
  rw [validateGroup_ok, validateGroup_ok, h.length_eq, (h.map (·.owner)).nodup_iff]
  simp only [h.mem_iff]

theorem hexDigitValue_hexByte (n : ℕ) (h : n < 16) : hexDigitValue (hexByte n) = some n := by
  interval_cases n <;> rfl

theorem hexDecode_hexEncode (b : Bytes) : hexDecode (hexEncode b) = some b := by
  induction b with
  | nil => rfl
  | cons x xs ih =>
    have hx : x.toNat < 256 := x.toNat_lt
    have hsum : UInt8.ofNat (16*(x.toNat/16)+x.toNat%16) = x := by
      rw [Nat.div_add_mod]
      exact UInt8.ofNat_toNat
    rw [hexEncode, List.flatMap_cons, ← hexEncode]
    simp only [List.cons_append, List.nil_append, hexDecode, ih,
      hexDigitValue_hexByte (x.toNat/16) (by omega), hexDigitValue_hexByte (x.toNat%16) (by omega),
      Option.bind_eq_bind, Option.bind_some, Option.pure_def, hsum]

section Agreement

variable {hashEmail : HashEmail} {accounts : List LegacyAccount}

/-- Of the accounts of several organizations that share a hash, each is a service account. -/
def ServicesOnly (hashEmail : HashEmail) (accounts : List LegacyAccount) : Prop :=
  ∃ key, 2 ≤ (sharing (accounts.filterMap (hashedRef hashEmail)) key).length ∧
    (∀ r ∈ sharing (accounts.filterMap (hashedRef hashEmail)) key, r.isServiceAccount = true) ∧
    ((sharing (accounts.filterMap (hashedRef hashEmail)) key).map (·.owner)).Nodup

theorem candidate_eq_some {g s : Group} : g.candidate = some s ↔
    s = g.sorted ∧ (g.accounts.map (·.owner)).Nodup ∧ ¬Mixed g.accounts ∧ g.accounts.length ≠ 1 := by
  have hperm := sortRefs_perm g.accounts
  have hmixed : Mixed (sortRefs g.accounts) ↔ Mixed g.accounts := by
    simp only [Mixed, hperm.mem_iff]
  rw [Group.candidate, Option.ite_none_right_eq_some, Group.sorted, classifyConflict_eq_none,
    (hperm.map (·.owner)).nodup_iff, hmixed, Option.some.injEq]
  constructor
  · rintro ⟨⟨⟨hn, hm⟩, hl⟩, rfl⟩
    exact ⟨rfl, hn, hm, hl⟩
  · rintro ⟨rfl, hn, hm, hl⟩
    exact ⟨⟨⟨hn, hm⟩, hl⟩, rfl⟩

theorem candidate_validates_iff {g s : Group} (h : g.candidate = some s) (hne : g.accounts ≠ []) :
    validateGroup s = .ok () ↔ ∃ r ∈ g.accounts, r.isServiceAccount = false := by
  obtain ⟨rfl, hnodup, hmixed, hlen⟩ := candidate_eq_some.mp h
  have hpos : 0 < g.accounts.length := List.length_pos_of_ne_nil hne
  rw [validateGroup_of_perm (k := g) (sortRefs_perm g.accounts), validateGroup_ok]
  constructor
  · rintro ⟨-, hhuman, -⟩
    obtain ⟨r, hr⟩ := List.exists_mem_of_ne_nil g.accounts hne
    exact ⟨r, hr, hhuman r hr⟩
  · intro hhuman
    refine ⟨by omega, fun r hr => ?_, hnodup⟩
    by_contra hs
    exact hmixed ⟨hhuman, r, hr, Bool.not_eq_false _ ▸ hs⟩

theorem conflict_refused {g : Group} {c : Conflict} (h : g.conflict = some c) :
    validateGroup ⟨c.emailHashHex, c.accounts⟩ ≠ .ok () := by
  intro hok
  rw [Group.conflict, Option.map_eq_some_iff] at h
  obtain ⟨kd, hkd, rfl⟩ := h
  obtain ⟨-, hhuman, hnodup⟩ := validateGroup_ok.mp hok
  have hnone : classifyConflict g.sorted.accounts = none := by
    refine classifyConflict_eq_none.mpr ⟨hnodup, ?_⟩
    rintro ⟨-, r, hr, hs⟩
    rw [hhuman r hr] at hs
    cases hs
  rw [hnone] at hkd
  cases hkd

theorem exists_hash_of_grouped {groups : List Group}
    (h : Grouped (accounts.filterMap (hashedRef hashEmail)) groups) {g : Group} (hg : g ∈ groups) :
    ∃ a ∈ accounts, ∃ hash, hashEmail a.email = .ok hash ∧ g.emailHashHex = hexEncode hash := by
  obtain ⟨r, hr⟩ := List.exists_mem_of_ne_nil _ (h.nonempty g hg)
  rw [h.accounts g hg, sharing] at hr
  obtain ⟨p, hp, -⟩ := List.mem_map.mp hr
  obtain ⟨hp, hk⟩ := List.mem_filter.mp hp
  obtain ⟨a, ha, hap⟩ := List.mem_filterMap.mp hp
  rw [hashedRef] at hap
  split_ifs at hap with he
  cases hh : hashEmail a.email with
  | error err =>
    rw [hh] at hap
    cases hap
  | ok hash =>
    rw [hh] at hap
    cases hap
    exact ⟨a, ha, hash, hh, (of_decide_eq_true hk).symm⟩

/-- What the approval of a group must say. -/
structure Approves (plan : Plan) : Prop where
  named : plan.approval.approvedBy ≠ []
  bound : plan.approval.groupEmailHashHex = plan.group.emailHashHex
  elected : ∃ r ∈ plan.group.accounts, r.key = plan.approval.primary

theorem validateApproval_ok {plan : Plan} : validateApproval plan = .ok () ↔ Approves plan := by
  rw [validateApproval, ite_error_eq_ok, ite_error_eq_ok, not_not]
  constructor
  · rintro ⟨hn, hb, h⟩
    split at h
    · rename_i hany
      obtain ⟨r, hr, hk⟩ := List.any_eq_true.mp hany
      exact ⟨hn, hb, r, hr, of_decide_eq_true hk⟩
    · cases h
  · rintro ⟨hn, hb, r, hr, hk⟩
    have hany : (plan.group.accounts.any fun r => r.key = plan.approval.primary) = true :=
      List.any_eq_true.mpr ⟨r, hr, decide_eq_true hk⟩
    exact ⟨hn, hb, by rw [if_pos hany]⟩

variable {w : Outside} {organizationId : GoString → Option Uuid} {plan : Plan}

theorem newMember_returns {ε : Type} {identityId org : Uuid} {err : ε} (hw : w.Working)
    (hid : identityId ≠ Uuid.nil) (horg : org ≠ Uuid.nil) :
    (newMember w identityId org err).Returns fun _ => True := by
  apply (newUuid_returns hw).bind
  intro id _
  rw [newMembership, newMembershipWith, if_neg (not_or.mpr ⟨hid, horg⟩)]
  exact returns_pure trivial

theorem newIdentity_returns {ε : Type} {t : IdentityType} {emailHash : Bytes} {err : ε}
    (hw : w.Working) : (newIdentity w t emailHash err).Returns (·.id ≠ Uuid.nil) := by
  apply (newUuid_returns hw).bind
  intro id hid
  apply returns_get_bind
  intro c
  apply (returns_modify _).bind
  intro _ _
  obtain ⟨subject, hs⟩ := Option.isSome_iff_exists.mp (hw.newSubject c.subjects)
  rw [hs]
  exact returns_pure hid

theorem fuseAccount_returns {identityId : Uuid} {res : Fused} {ref : AccountRef} (hw : w.Working)
    (hid : identityId ≠ Uuid.nil)
    (horg : ∃ org, organizationId ref.owner = some org ∧ org ≠ Uuid.nil) :
    (fuseAccount w organizationId plan identityId res ref).Returns fun _ => True := by
  obtain ⟨org, ho, hne⟩ := horg
  rw [fuseAccount, ho]
  apply (newMember_returns hw hid hne).bind
  intro m _
  dsimp only
  split
  · apply (migrate_returns hw hid _).within.bind
    exact fun _ _ => returns_pure trivial
  · apply (migrate_returns hw hid _).within.bind
    exact fun _ _ => returns_pure trivial

theorem fuseAccounts_returns {identityId : Uuid} {refs : List AccountRef} (hw : w.Working)
    (hid : identityId ≠ Uuid.nil)
    (horg : ∀ r ∈ refs, ∃ org, organizationId r.owner = some org ∧ org ≠ Uuid.nil) (res : Fused) :
    (fuseAccounts w organizationId plan identityId res refs).Returns fun _ => True := by
  induction refs generalizing res with
  | nil => exact returns_pure trivial
  | cons r rs ih =>
    apply (fuseAccount_returns hw hid (horg r List.mem_cons_self)).bind
    intro res' _
    exact ih (fun r' hr' => horg r' (List.mem_cons_of_mem r hr')) res'

theorem fuse_returns {hash : Bytes} (hw : w.Working) (happroval : Approves plan)
    (hgroup : validateGroup plan.group = .ok ()) (hhash : plan.group.emailHashHex = hexEncode hash)
    (hne : hash ≠ [])
    (horg : ∀ r ∈ plan.group.accounts, ∃ org, organizationId r.owner = some org ∧ org ≠ Uuid.nil) :
    (fuse w organizationId plan).Returns fun _ => True := by
  rw [fuse, validateApproval_ok.mpr happroval, hgroup, hhash, hexDecode_hexEncode]
  apply (returns_pure trivial : (ofValidation (.ok ())).Returns fun _ => True).bind
  intro _ _
  apply (returns_pure trivial : (ofValidation (.ok ())).Returns fun _ => True).bind
  intro _ _
  apply (returns_refuseIf hne).bind
  intro _ _
  apply (newIdentity_returns hw).bind
  intro identity hid
  exact fuseAccounts_returns hw hid horg _

/-- The inventory and the fusion agree, unless service accounts of several organizations share an
e-mail among themselves; what validates is then fused. -/
theorem inventory_fusion_agree_iff (hashEmail : HashEmail) (accounts : List LegacyAccount) :
    (((∀ g ∈ (buildInventory hashEmail accounts).fusionCandidates, validateGroup g = .ok ()) ∧
      ∀ c ∈ (buildInventory hashEmail accounts).conflicts,
        validateGroup ⟨c.emailHashHex, c.accounts⟩ ≠ .ok ()) ↔ ¬ServicesOnly hashEmail accounts) ∧
    ((∀ email hash, hashEmail email = .ok hash → hash ≠ []) →
      ∀ g ∈ (buildInventory hashEmail accounts).fusionCandidates, validateGroup g = .ok () →
      ∀ (plan : Plan) (w : Outside) (organizationId : GoString → Option Uuid) (calls : Calls),
        plan.group = g → Approves plan → w.Working →
        (∀ r ∈ g.accounts, ∃ org, organizationId r.owner = some org ∧ org ≠ Uuid.nil) →
        ∃ fused calls', (fuse w organizationId plan).call calls = (.ok fused, calls')) := by
  obtain ⟨groups, hinv⟩ := buildInventory_spec hashEmail accounts
  have hconflicts : ∀ c ∈ (buildInventory hashEmail accounts).conflicts,
      validateGroup ⟨c.emailHashHex, c.accounts⟩ ≠ .ok () := by
    intro c hc
    rcases hinv.conflicts c hc with hone | ⟨g, -, hg⟩
    · intro hok
      have hlen : 2 ≤ c.accounts.length := (validateGroup_ok.mp hok).1
      omega
    · exact conflict_refused hg
  refine ⟨⟨fun ⟨hpass, _⟩ ⟨key, hlen, hservices, hnodup⟩ => ?_, fun hno => ⟨?_, hconflicts⟩⟩, ?_⟩
  · -- the group of the services is a candidate, and has no person's account
    obtain ⟨r, hr⟩ := List.exists_mem_of_length_pos (Nat.lt_of_lt_of_le Nat.zero_lt_two hlen)
    obtain ⟨p, hp, -⟩ := List.mem_map.mp hr
    obtain ⟨hp, hk⟩ := List.mem_filter.mp hp
    obtain ⟨g, hg, hgk⟩ := hinv.grouped.covers p hp
    have haccounts : g.accounts = sharing (accounts.filterMap (hashedRef hashEmail)) key := by
      rw [hinv.grouped.accounts g hg, hgk, of_decide_eq_true hk]
    rw [← haccounts] at hlen hservices hnodup
    have hcandidate : g.candidate = some g.sorted := by
      refine candidate_eq_some.mpr ⟨rfl, hnodup, ?_, by omega⟩
      rintro ⟨⟨r', hr', hs⟩, -⟩
      rw [hservices r' hr'] at hs
      cases hs
    have hok := hpass g.sorted ((hinv.candidates _).mpr ⟨g, hg, hcandidate⟩)
    obtain ⟨r', hr', hs⟩ :=
      (candidate_validates_iff hcandidate (hinv.grouped.nonempty g hg)).mp hok
    rw [hservices r' hr'] at hs
    cases hs
  · intro s hs
    obtain ⟨g, hg, hcandidate⟩ := (hinv.candidates s).mp hs
    have hne := hinv.grouped.nonempty g hg
    apply (candidate_validates_iff hcandidate hne).mpr
    by_contra hhuman
    obtain ⟨-, hnodup, -, hlen⟩ := candidate_eq_some.mp hcandidate
    have hpos : 0 < g.accounts.length := List.length_pos_of_ne_nil hne
    refine hno ⟨g.emailHashHex, ?_⟩
    rw [← hinv.grouped.accounts g hg]
    refine ⟨by omega, fun r hr => ?_, hnodup⟩
    by_contra hs
    exact hhuman ⟨r, hr, Bool.not_eq_true _ ▸ hs⟩
  · intro hhash s hs hok plan w organizationId calls hplan happroval hw horg
    obtain ⟨g, hg, hcandidate⟩ := (hinv.candidates s).mp hs
    obtain ⟨a, -, hash, hh, hkey⟩ := exists_hash_of_grouped hinv.grouped hg
    obtain ⟨rfl, -⟩ := candidate_eq_some.mp hcandidate
    obtain ⟨fused, calls', hcall, -⟩ := fuse_returns hw happroval (hplan ▸ hok)
      (by rw [hplan]; exact hkey) (hhash a.email hash hh) (hplan ▸ horg) calls
    exact ⟨fused, calls', hcall⟩

end Agreement

namespace Sample

def digestEmail : HashEmail := fun email => .ok (Sha256.sha256 email)

/-- Two service accounts of different organizations, under one e-mail. -/
def bots : List LegacyAccount :=
  [⟨utf8 "acme", utf8 "bot", utf8 "bot@x", true, true, false, false⟩,
    ⟨utf8 "beta", utf8 "bot", utf8 "bot@x", true, true, false, false⟩]

theorem digestEmail_ne_nil (email hash : Bytes) (h : digestEmail email = .ok hash) : hash ≠ [] := by
  obtain rfl := Except.ok.inj h
  apply List.ne_nil_of_length_pos
  rw [Sha256.length_sha256]
  exact Nat.succ_pos 31

/-- A person with an account in each of two organizations. -/
def people : List LegacyAccount :=
  [⟨utf8 "acme", utf8 "ana", utf8 "ana@x", false, true, false, false⟩,
    ⟨utf8 "beta", utf8 "ana", utf8 "ana@x", false, false, true, false⟩]

def anaAcme : AccountRef := ⟨utf8 "acme", utf8 "ana", false, true, false, false⟩

def anaBeta : AccountRef := ⟨utf8 "beta", utf8 "ana", false, false, true, false⟩

def organizations (owner : GoString) : Option Uuid :=
  if owner = utf8 "acme" then some 1 else if owner = utf8 "beta" then some 2 else none

def reunion : Plan where
  group := ⟨hexEncode (Sha256.sha256 (utf8 "ana@x")), [anaAcme, anaBeta]⟩
  approval := ⟨utf8 "chief", hexEncode (Sha256.sha256 (utf8 "ana@x")), anaAcme.key⟩
  credentials _ := LegacyCredentials.empty

theorem reunion_proposed : (buildInventory digestEmail people).fusionCandidates = [reunion.group] := by
  decide +kernel

/-- A source of UUIDs and a vault that never fail. -/
def tireless : Outside where
  newV7 n := some (BitVec.ofNat 128 (2*n+1))
  newSubject n := some (toString n)
  put n _ := some (utf8 "secret/" ++ utf8 (toString n))
  byOrg _ orgs := orgs
  byOrg_perm _ := List.Perm.refl

theorem tireless_working : tireless.Working where
  newV7 n := by
    refine ⟨_, rfl, fun hnil => ?_⟩
    have hodd := congrArg BitVec.toNat hnil
    rw [BitVec.toNat_ofNat, Uuid.nil, BitVec.toNat_ofNat] at hodd
    omega
  newSubject _ := rfl
  put n _ := ⟨_, rfl, List.append_ne_nil_of_left_ne_nil (by decide) _⟩

end Sample

/-- A person's accounts are proposed for a fusion, validate, and are fused. -/
theorem people_fused : ∃ fused calls', (fuse Sample.tireless Sample.organizations Sample.reunion).call
    ⟨0, 0, 0⟩ = (.ok fused, calls') := by
  have hproposed : Sample.reunion.group ∈
      (buildInventory Sample.digestEmail Sample.people).fusionCandidates := by
    rw [Sample.reunion_proposed]
    exact List.mem_singleton_self _
  have hvalid : validateGroup Sample.reunion.group = .ok () := by
    refine validateGroup_ok.mpr ⟨le_rfl, ?_, ?_⟩ <;> decide
  have happroves : Approves Sample.reunion :=
    ⟨by decide, rfl, Sample.anaAcme, List.mem_cons_self, rfl⟩
  refine (inventory_fusion_agree_iff Sample.digestEmail Sample.people).2 Sample.digestEmail_ne_nil
    _ hproposed hvalid Sample.reunion Sample.tireless Sample.organizations ⟨0, 0, 0⟩ rfl happroves
    Sample.tireless_working ?_
  intro r hr
  rcases List.mem_pair.mp hr with rfl | rfl
  · exact ⟨1, rfl, by decide⟩
  · exact ⟨2, rfl, by decide⟩

/-- The services' group is proposed for a fusion, and refused by it. -/
theorem services_proposed : ∃ g ∈ (buildInventory Sample.digestEmail Sample.bots).fusionCandidates,
    validateGroup g ≠ .ok () := by
  have hlist : (buildInventory Sample.digestEmail Sample.bots).fusionCandidates =
      [⟨hexEncode (Sha256.sha256 (utf8 "bot@x")), Sample.bots.map (·.ref)⟩] := by
    decide +kernel
  rw [hlist]
  refine ⟨_, List.mem_singleton_self _, fun hok => ?_⟩
  have hservice := (validateGroup_ok.mp hok).2.1 ⟨utf8 "acme", utf8 "bot", true, true, false, false⟩
    List.mem_cons_self
  cases hservice

end ArchGuard.Migration
