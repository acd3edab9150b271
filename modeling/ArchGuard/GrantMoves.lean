import ArchGuard.CatalogSpec
import ArchGuard.GrantHolder

/-! What one call of a tenant does to the grants, and what it enqueues beside their moves. -/
namespace ArchGuard.Authz
open Tenancy

/-- A row of the organization: its times are as the columns keep them, and its window opens. -/
structure GrantRow (org : Uuid) (g : PrivilegedGrant) : Prop where
  organization : g.organizationId = org
  stored : g.stored = g
  window : g.notBefore < g.expiresAt

theorem GrantRow.setStatus {org : Uuid} {g : PrivilegedGrant} (h : GrantRow org g)
    (status : GrantStatus) : GrantRow org (g.setStatus status) := by
  refine ⟨h.organization, ?_, h.window⟩
  change (g.stored).setStatus status = g.setStatus status
  rw [h.stored]

/-- The grants of `gs`, and no others, go to the rows that `gs` says. -/
structure Moves (org : Uuid) (db db' : Db) (gs : List PrivilegedGrant) : Prop where
  kept : ∀ k, (∀ g ∈ gs, g.id ≠ k) → grantAt db' k = grantAt db k
  moved : ∀ g ∈ gs, grantAt db' g.id = some g.stored
  row : ∀ g ∈ gs, GrantRow org g.stored
  -- a grant keeps its subject and its target
  same : ∀ g ∈ gs, ∀ r, grantAt db g.id = some r →
    r.subjectMembershipId = g.subjectMembershipId ∧ r.target = g.target
  -- only a decision on one grant activates
  alike : (∃ g, gs = [g]) ∨ ∀ g ∈ gs, g.status ≠ .active
  times : ∀ g ∈ gs, g.status = .active →
    g.stored.notBefore = g.notBefore ∧ g.stored.expiresAt = g.expiresAt

section Moves

variable {db db' : Db} {org : Uuid}

theorem Moves.organization {gs : List PrivilegedGrant} (h : Moves org db db' gs)
    {g : PrivilegedGrant} (hg : g ∈ gs) : g.organizationId = org := (h.row g hg).organization

theorem moves_nil (h : grantAt db' = grantAt db) : Moves org db db' [] where
  kept k _ := congrFun h k
  moved _ hg := absurd hg List.not_mem_nil
  row _ hg := absurd hg List.not_mem_nil
  same _ hg := absurd hg List.not_mem_nil
  alike := Or.inr fun _ hg => absurd hg List.not_mem_nil
  times _ hg := absurd hg List.not_mem_nil

theorem moves_end {gs : List PrivilegedGrant} {status : GrantStatus}
    (hrows : ∀ k g, grantAt db k = some g → GrantRow org g)
    (hgs : ∀ g ∈ gs, grantAt db g.id = some g) (hstatus : status ≠ .active)
    (htab : (tables db').grant = ((tables db).setGrants (listed org gs) status).grant) :
    Moves org db db' (gs.map (PrivilegedGrant.setStatus status)) := by
  have hgrant (k : Uuid) : grantAt db' k =
      (grantAt db k).map (edit (listed org gs) (PrivilegedGrant.setStatus status)) :=
    congrFun htab k
  constructor
  · intro k hk
    rw [hgrant]
    cases hr : grantAt db k with
    | none => rfl
    | some r =>
      have hnot : listed org gs r = false := by
        rw [Bool.eq_false_iff]
        intro hl
        obtain ⟨g, hg, hid⟩ := List.any_eq_true.mp (Bool.and_eq_true_iff.mp hl).1
        have hne := hk (g.setStatus status) (List.mem_map.mpr ⟨g, hg, rfl⟩)
        exact hne ((of_decide_eq_true hid).symm.trans (grantAt_id hr))
      simp [edit, hnot]
  · intro g' hg'
    obtain ⟨g, hg, rfl⟩ := List.mem_map.mp hg'
    have hrow := hrows _ g (hgs g hg)
    have hl : listed org gs g = true := by
      rw [listed, Bool.and_eq_true]
      exact ⟨List.any_eq_true.mpr ⟨g, hg, decide_eq_true rfl⟩, decide_eq_true hrow.organization⟩
    rw [(hrow.setStatus status).stored, hgrant]
    change (grantAt db g.id).map _ = _
    rw [hgs g hg, Option.map_some, edit, if_pos hl]
  · intro g' hg'
    obtain ⟨g, hg, rfl⟩ := List.mem_map.mp hg'
    have hrow := (hrows _ g (hgs g hg)).setStatus status
    rw [hrow.stored]
    exact hrow
  · intro g' hg' r hr
    obtain ⟨g, hg, rfl⟩ := List.mem_map.mp hg'
    obtain rfl := Option.some.inj ((hgs g hg).symm.trans hr)
    exact ⟨rfl, rfl⟩
  · apply Or.inr
    intro g' hg'
    obtain ⟨g, hg, rfl⟩ := List.mem_map.mp hg'
    exact hstatus
  · intro g' hg' hact
    obtain ⟨g, hg, rfl⟩ := List.mem_map.mp hg'
    exact absurd hact hstatus

/-- A transition moves the status and the approvals of a grant only. -/
def KeepsTerms (transition : PrivilegedGrant → Except GrantError PrivilegedGrant) : Prop :=
  ∀ g g', transition g = .ok g' → g' = { g with status := g'.status, approvals := g'.approvals }

theorem moves_decideGrant {grantId : Uuid} {g' : PrivilegedGrant}
    {transition : PrivilegedGrant → Except GrantError PrivilegedGrant} (hkeep : KeepsTerms transition)
    (hrows : ∀ k g, grantAt db k = some g → GrantRow org g)
    (h : decideGrant db org grantId transition = .ok (g', db')) : Moves org db db' [g'] := by
  obtain ⟨g, hg, ht⟩ := decideGrant_ok h
  have hterms := hkeep g g' ht
  obtain ⟨r, hr, hrorg, rfl⟩ := getGrant_some hg
  have hrow := hrows _ r hr
  have hid : r.id = grantId := grantAt_id hr
  have hid' : g'.id = grantId := by
    rw [hterms]
    exact hid
  obtain ⟨db'', hdec, htab⟩ := decideGrant_some hg ht (by rw [hterms]) (by rw [hterms])
  obtain ⟨-, rfl⟩ := Prod.mk.inj (Except.ok.inj (h.symm.trans hdec))
  have hgrant (k : Uuid) : grantAt db' k = (grantAt db k).map (edit
      (fun r => r.id = grantId && r.organizationId = org) (PrivilegedGrant.setStatus g'.status)) :=
    congrFun (congrArg Tables.grant htab) k
  have hstored : g'.stored = r.setStatus g'.status := by
    rw [← (hrow.setStatus g'.status).stored, hterms]
    rfl
  have hmem {P : PrivilegedGrant → Prop} (hP : P g') : ∀ a ∈ [g'], P a := by
    intro a ha
    obtain rfl := List.mem_singleton.mp ha
    exact hP
  constructor
  · intro k hk
    have hne : k ≠ grantId := fun he => hk g' List.mem_cons_self (hid'.trans he.symm)
    rw [hgrant]
    cases hr' : grantAt db k with
    | none => rfl
    | some r' => simp [edit, grantAt_id hr', hne]
  · apply hmem
    rw [hid', hgrant, hr, Option.map_some, hstored, edit, if_pos (by simp [hid, hrorg])]
  · apply hmem
    rw [hstored]
    exact hrow.setStatus _
  · apply hmem
    intro r' hr'
    rw [hid'] at hr'
    obtain rfl := Option.some.inj (hr.symm.trans hr')
    rw [hterms]
    exact ⟨rfl, rfl⟩
  · exact Or.inl ⟨g', rfl⟩
  · apply hmem
    intro _
    have hnb : r.stored.notBefore = r.notBefore := by rw [hrow.stored]
    have hexp : r.stored.expiresAt = r.expiresAt := by rw [hrow.stored]
    rw [hterms]
    exact ⟨hnb, hexp⟩

theorem moves_insertGrant {g : PrivilegedGrant} (hstatus : g.status = .requested)
    (horg : g.organizationId = org) (hnew : grantAt db g.id = none)
    (hwindow : g.stored.notBefore < g.stored.expiresAt) : Moves org db (insertGrant db g) [g] := by
  have hgrant : grantAt (insertGrant db g) = Function.update (grantAt db) g.id (some g.stored) :=
    congrArg Tables.grant tables_insertGrant
  have hinactive : g.status ≠ .active := by
    rw [hstatus]
    exact nofun
  have hmem {P : PrivilegedGrant → Prop} (hP : P g) : ∀ a ∈ [g], P a := by
    intro a ha
    obtain rfl := List.mem_singleton.mp ha
    exact hP
  constructor
  · intro k hk
    have hne : k ≠ g.id := (hk g List.mem_cons_self).symm
    rw [hgrant, Function.update_of_ne hne]
  · apply hmem
    rw [hgrant, Function.update_self]
  · refine hmem ⟨horg, ?_, hwindow⟩
    have htime (t : Time) : t.stored.stored = t.stored := by
      change t.stored.unixMicro*1000 = t.unixMicro*1000
      rw [Time.stored_unixMicro]
    simp only [PrivilegedGrant.stored, htime]
  · apply hmem
    intro r hr
    rw [hnew] at hr
    cases hr
  · exact Or.inl ⟨g, rfl⟩
  · exact hmem fun hact => absurd hact hinactive

end Moves

section Services

variable {c : Collaborators} {org : Uuid} {s : TenantState}

theorem keepsTerms_passStepUp (aal : Aal) (phishingResistant : Bool) :
    KeepsTerms fun g => g.passStepUp aal phishingResistant := by
  intro g g' h
  obtain ⟨-, rfl⟩ := PrivilegedGrant.passStepUp_ok h
  rfl

theorem keepsTerms_approve (approver : Uuid) : KeepsTerms fun g => g.approve approver := by
  intro g g' h
  obtain ⟨-, rfl⟩ := PrivilegedGrant.approve_ok h
  rfl

theorem keepsTerms_revoke : KeepsTerms PrivilegedGrant.revoke := by
  intro g g' h
  obtain rfl := PrivilegedGrant.revoke_ok h
  rfl

theorem moves_decision {db : Db} {ε : Type} {body : Except ε (PrivilegedGrant × Db)}
    (h : ∀ g db', body = .ok (g, db') → Moves org db db' [g]) :
    Moves org db (inTx db body).2 (inTx db body).1.toOption.toList := by
  cases body with
  | error err => exact moves_nil rfl
  | ok p => exact h p.1 p.2 rfl

theorem grantAt_cascade {db : Db} {identityId : Uuid}
    {transition : Identity → Except DirectoryError Identity} {moved : Membership → Bool}
    {status : MembershipStatus} (hkeep : ∀ i i', transition i = .ok i' → i'.id = i.id) :
    grantAt (inTx db (cascade db identityId transition moved status)).2 = grantAt db := by
  by_cases hok : ∃ i i', getIdentity db identityId = some i ∧ transition i = .ok i'
  · obtain ⟨i, i', hi, ht⟩ := hok
    exact congrArg Tables.grant (tables_cascade hi ht (hkeep i i' ht))
  · rw [cascade_refused fun i i' hi ht => hok ⟨i, i', hi, ht⟩]

theorem moves_perform (hrows : ∀ k g, grantAt s.db k = some g → GrantRow org g) {op : TenantOp}
    {o : Op} (h : op.service org = some o) :
    Moves org s.db (perform c s.db o) (transitions c org s op) := by
  have hadmits {o : Op} (ho : o.admits = true) : grantAt (perform c s.db o) = grantAt s.db :=
    (admission_perform ho).grant
  cases op with
  | suspendIdentity identityId =>
    obtain rfl := Option.some.inj h
    exact moves_nil (grantAt_cascade fun i i' hi => Identity.suspend_id hi)
  | deprovisionIdentity identityId =>
    obtain rfl := Option.some.inj h
    exact moves_nil (grantAt_cascade fun i i' hi => Except.ok.inj hi ▸ rfl)
  | inviteByEmail email invitedBy id =>
    obtain rfl := Option.some.inj h
    exact moves_nil (hadmits rfl)
  | accept membershipId identityId =>
    obtain rfl := Option.some.inj h
    exact moves_nil (hadmits rfl)
  | provisionUser email draw =>
    obtain rfl := Option.some.inj h
    exact moves_nil (hadmits rfl)
  | provisionFederated email draw =>
    obtain rfl := Option.some.inj h
    exact moves_nil (hadmits rfl)
  | revokeMembership id =>
    obtain rfl := Option.some.inj h
    simp only [perform, transitions]
    cases hm : getMembership s.db org id with
    | none =>
      rw [revokeMembership_unknown hm]
      exact moves_nil rfl
    | some m =>
      obtain ⟨sessions, htab⟩ := tables_revokeMembership hm
      refine moves_end hrows (fun g hg => (mem_listGrants.mp hg).1) (by decide) ?_
      rw [htab, Tables.setGrants_congr fun k g hg => listed_listActiveByMembership hg]
      rfl
  | suspendForDeactivation id =>
    obtain rfl := Option.some.inj h
    apply moves_nil
    simp only [perform]
    by_cases hok : ∃ m, getMembership s.db org id = some m ∧ m.status = .active
    · obtain ⟨m, hm, hact⟩ := hok
      obtain ⟨sessions, htab⟩ := tables_suspendForDeactivation hm hact
      exact congrArg Tables.grant htab
    · rw [suspendForDeactivation_idle fun m hm hact => hok ⟨m, hm, hact⟩]
  | requestBreakglass id subject target n justification incidentRef notBefore expiresAt =>
    obtain rfl := Option.some.inj h
    simp only [perform, transitions]
    rcases requestBreakglass_eq id org subject target n justification incidentRef notBefore
      expiresAt with ⟨err, he⟩ | ⟨g, hstatus, horg, hnew, hwindow, he⟩
    · rw [he]
      exact moves_nil rfl
    · rw [he]
      exact moves_insertGrant hstatus horg hnew hwindow
  | passStepUp grantId aal phishingResistant =>
    obtain rfl := Option.some.inj h
    exact moves_decision fun g db' hok =>
      moves_decideGrant (keepsTerms_passStepUp aal phishingResistant) hrows hok
  | approve grantId approver =>
    obtain rfl := Option.some.inj h
    exact moves_decision fun g db' hok => moves_decideGrant (keepsTerms_approve approver) hrows hok
  | revokeGrant grantId =>
    obtain rfl := Option.some.inj h
    apply moves_decision
    intro g db' hok
    obtain ⟨⟨g₁, db₁⟩, hdec, hok⟩ := bind_eq_ok.mp hok
    obtain ⟨rfl, rfl⟩ := Prod.mk.inj (Except.ok.inj hok)
    have hmoves := moves_decideGrant keepsTerms_revoke hrows hdec
    have hsame : grantAt (revokeSessions db₁ (SessionQuery.byGrant g₁.id org).matches) =
        grantAt db₁ := congrArg Tables.grant tables_revokeSessions
    exact { hmoves with
      kept := fun k hk => by rw [hsame, hmoves.kept k hk]
      moved := fun a ha => by rw [hsame, hmoves.moved a ha] }
  | expireDue now =>
    obtain rfl := Option.some.inj h
    obtain ⟨sessions, htab⟩ := tables_expireDue s.db org now
    refine moves_end hrows (fun g hg => (mem_listGrants.mp hg).1) (by decide) ?_
    rw [perform, htab]
  | createAssetGroup id name parent => cases h
  | createAsset id kind name externalRef parent owner => cases h
  | createAssetAccess id subjectType subjectId relation objectType objectId => cases h
  | createGroupMembership id groupId membershipId => cases h
  | deleteGroupMembership groupId membershipId => cases h

end Services

section Calls

variable {parse : String → Option Uuid} {c : Collaborators} {org : Uuid} {s : TenantState}

/-- What every call of the tenant keeps. -/
structure TenantInv (org : Uuid) (s : TenantState) : Prop where
  grants : ∀ k g, grantAt s.db k = some g → GrantRow org g
  assignable : Assignable s
  outbox : ∀ u ∈ s.outbox, WithinTenant org u
  -- a grant is held by a membership, never by a userset
  grantees : ∀ u ∈ s.outbox, u.tuple.relation = relHasActiveGrant → splitUserset u.tuple.user = none

theorem tenantInv_fresh (org : Uuid) : TenantInv org .fresh where
  grants k g h := by cases h
  assignable _ ha := absurd ha List.not_mem_nil
  outbox _ hu := absurd hu List.not_mem_nil
  grantees _ hu := absurd hu List.not_mem_nil

theorem mem_lifecycleUpdates {op : TenantOp} {u : TupleUpdate}
    (h : u ∈ lifecycleUpdates c org s op) :
    ∃ membershipId present, u ∈ accessUpdates s org membershipId present := by
  cases op with
  | accept membershipId identityId =>
    simp only [lifecycleUpdates, enqueuedBy] at h
    split at h
    · exact ⟨_, _, h⟩
    · cases h
  | provisionFederated email draw =>
    simp only [lifecycleUpdates, enqueuedBy] at h
    split at h
    · split at h
      · cases h
      split_ifs at h
      · exact ⟨_, _, h⟩
      · cases h
    · cases h
  | revokeMembership id =>
    simp only [lifecycleUpdates] at h
    split_ifs at h
    · exact ⟨_, _, h⟩
    · cases h
  | suspendForDeactivation id =>
    simp only [lifecycleUpdates] at h
    split_ifs at h
    · exact ⟨_, _, h⟩
    · cases h
  | _ => cases h

/-- What a call does to the grants and to the outbox: it moves the grants of `transitions`
and enqueues their projections, after mutations that concern no grant. -/
structure TenantStep (parse : String → Option Uuid) (c : Collaborators) (org : Uuid)
    (s s' : TenantState) (op : TenantOp) : Prop where
  moves : Moves org s.db s'.db (transitions c org s op)
  assignable : Assignable s'
  outbox : ∃ us, s'.outbox = s.outbox ++ (us ++ (transitions c org s op).flatMap (grantUpdates parse)) ∧
    ∀ u ∈ us, Structural org u.tuple

theorem tenantStep_service (hparse : ∀ u : Uuid, parse u.text = some u) (hinv : TenantInv org s)
    {op : TenantOp} {o : Op} (h : op.service org = some o) :
    TenantStep parse c org s (performTenant parse c org s op) op := by
  rw [performTenant_service hparse hinv.assignable h]
  refine ⟨moves_perform hinv.grants h, hinv.assignable, _, rfl, fun u hu => ?_⟩
  obtain ⟨membershipId, present, hu⟩ := mem_lifecycleUpdates hu
  obtain ⟨t, ht, rfl⟩ := List.mem_map.mp hu
  exact structural_accessTuples hinv.assignable ht

theorem tenantStep_catalog {s' : TenantState} {op : TenantOp} {us : List TupleUpdate}
    (hop : transitions c org s op = []) (hdb : s'.db = s.db) (hassign : Assignable s')
    (hout : s'.outbox = s.outbox ++ us) (hus : ∀ u ∈ us, Structural org u.tuple) :
    TenantStep parse c org s s' op := by
  constructor
  · rw [hop, hdb]
    exact moves_nil rfl
  · exact hassign
  · refine ⟨us, ?_, hus⟩
    rw [hop, List.flatMap_nil, List.append_nil, hout]

theorem structural_writes {ts : List RelationTuple} {op : TupleOp}
    (hts : ∀ t ∈ ts, Structural org t) :
    ∀ u ∈ ts.map fun t => (⟨op, t, none⟩ : TupleUpdate), Structural org u.tuple := by
  intro u hu
  obtain ⟨t, ht, rfl⟩ := List.mem_map.mp hu
  exact hts t ht

theorem tenantStep_perform (hparse : ∀ u : Uuid, parse u.text = some u) (hinv : TenantInv org s)
    (op : TenantOp) : TenantStep parse c org s (performTenant parse c org s op) op := by
  have hstay (hop : transitions c org s op = []) : TenantStep parse c org s s op :=
    tenantStep_catalog hop rfl hinv.assignable (List.append_nil _).symm
      fun u hu => absurd hu List.not_mem_nil
  cases op with
  | createAssetGroup id name parent =>
    rcases createAssetGroup_cases hparse id name parent with he | ⟨g, hg, he⟩
    · rw [he]
      exact hstay rfl
    · rw [he]
      exact tenantStep_catalog rfl rfl hinv.assignable rfl
        (structural_writes fun t ht => structural_assetGroup hg ht)
  | createAsset id kind name externalRef parent owner =>
    rcases createAsset_cases hparse id kind name externalRef parent owner with
      he | ⟨a, ha, -, -, he⟩
    · rw [he]
      exact hstay rfl
    · rw [he]
      exact tenantStep_catalog rfl rfl hinv.assignable rfl
        (structural_writes fun t ht => structural_asset ha ht)
  | createAssetAccess id subjectType subjectId relation objectType objectId =>
    rcases createAssetAccess_cases hparse id subjectType subjectId relation objectType objectId with
      he | ⟨a, ha, -, -, -, hrel, -, he⟩
    · rw [he]
      exact hstay rfl
    · rw [he]
      refine tenantStep_catalog rfl rfl (fun a' ha' => ?_) rfl fun u hu => ?_
      · rcases List.mem_append.mp ha' with ha' | ha'
        · exact hinv.assignable a' ha'
        · obtain rfl := List.mem_singleton.mp ha'
          exact hrel
      · obtain rfl := List.mem_singleton.mp hu
        exact structural_access ha hrel
  | createGroupMembership id groupId membershipId =>
    rcases createGroupMembership_cases hparse id groupId membershipId with he | ⟨g, hg, -, -, he⟩
    · rw [he]
      exact hstay rfl
    · rw [he]
      refine tenantStep_catalog rfl rfl hinv.assignable rfl fun u hu => ?_
      obtain rfl := List.mem_singleton.mp hu
      exact structural_edge hg
  | deleteGroupMembership groupId membershipId =>
    rw [deleteGroupMembership_eq hparse groupId membershipId]
    refine tenantStep_catalog rfl rfl hinv.assignable rfl fun u hu => ?_
    obtain rfl := List.mem_singleton.mp hu
    exact structural_edge rfl
  | _ => exact tenantStep_service hparse hinv rfl

theorem TenantStep.mem_outbox {s' : TenantState} {op : TenantOp} (h : TenantStep parse c org s s' op)
    {u : TupleUpdate} (hu : u ∈ s'.outbox) : u ∈ s.outbox ∨ Structural org u.tuple ∨
      ∃ g asset, g.organizationId = org ∧ u = grantUpdate g asset := by
  obtain ⟨us, hout, hus⟩ := h.outbox
  rw [hout, List.mem_append, List.mem_append] at hu
  rcases hu with hu | hu | hu
  · exact Or.inl hu
  · exact Or.inr (Or.inl (hus u hu))
  · obtain ⟨g, hg, hu⟩ := List.mem_flatMap.mp hu
    obtain ⟨asset, -, rfl⟩ := List.mem_map.mp hu
    exact Or.inr (Or.inr ⟨g, asset, h.moves.organization hg, rfl⟩)

theorem TenantStep.tenantInv {s' : TenantState} {op : TenantOp}
    (h : TenantStep parse c org s s' op) (hinv : TenantInv org s) : TenantInv org s' := by
  constructor
  · intro k g hg
    by_cases hmoved : ∃ g' ∈ transitions c org s op, g'.id = k
    · obtain ⟨g', hg', rfl⟩ := hmoved
      rw [h.moves.moved g' hg', Option.some.injEq] at hg
      exact hg ▸ h.moves.row g' hg'
    · rw [h.moves.kept k fun g' hg' hid => hmoved ⟨g', hg', hid⟩] at hg
      exact hinv.grants k g hg
  · exact h.assignable
  · intro u hu
    rcases h.mem_outbox hu with hu | hu | ⟨g, asset, rfl, rfl⟩
    · exact hinv.outbox u hu
    · exact hu.inTenant u.op u.condition
    · exact inTenant_grantUpdate g asset
  · intro u hu hrel
    rcases h.mem_outbox hu with hu | hu | ⟨g, asset, -, rfl⟩
    · exact hinv.grantees u hu hrel
    · exact absurd hrel hu.relation.2
    · rw [grantUpdate_tuple]
      exact splitUserset_qualify _ _ _

/-- The rows of the directory and the grants after a call. -/
def rowsAfter (c : Collaborators) (org : Uuid) (db : Db) (op : TenantOp) : Option Db :=
  some (match op.service org with
    | some o => perform c db o
    | none => db)

theorem callTenant_rows (hparse : ∀ u : Uuid, parse u.text = some u) (s : TenantState)
    (op : TenantOp) (s' : TenantState) (hinv : TenantInv org s)
    (h : callTenant parse c org s op = some s') :
    TenantInv org s' ∧ rowsAfter c org s.db op = some s'.db := by
  obtain rfl := Option.some.inj h
  refine ⟨(tenantStep_perform hparse hinv op).tenantInv hinv, ?_⟩
  unfold rowsAfter
  cases ho : op.service org with
  | some o => rw [performTenant_service hparse hinv.assignable ho]
  | none =>
    congr 1
    cases op with
    | createAssetGroup id name parent =>
      rcases createAssetGroup_cases hparse id name parent with he | ⟨g, -, he⟩ <;> rw [he]
    | createAsset id kind name externalRef parent owner =>
      rcases createAsset_cases hparse id kind name externalRef parent owner with
        he | ⟨a, -, -, -, he⟩ <;> rw [he]
    | createAssetAccess id subjectType subjectId relation objectType objectId =>
      rcases createAssetAccess_cases hparse id subjectType subjectId relation objectType objectId with
        he | ⟨a, -, -, -, -, -, -, he⟩ <;> rw [he]
    | createGroupMembership id groupId membershipId =>
      rcases createGroupMembership_cases hparse id groupId membershipId with
        he | ⟨g, -, -, -, he⟩ <;> rw [he]
    | deleteGroupMembership groupId membershipId =>
      rw [deleteGroupMembership_eq hparse groupId membershipId]
    | _ => cases ho

end Calls

end ArchGuard.Authz
