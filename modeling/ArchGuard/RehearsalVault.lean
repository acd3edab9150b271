import ArchGuard.RehearsalPuts

/-! The secrets that a rehearsal puts into the vault, and those that outlive their rows. -/
namespace ArchGuard.Migration
open GoMethod GoText Method Tenancy

section Steps

variable {α β ε : Type}

theorem method_ext {σ δ : Type} {m n : Method σ δ α} (h : ∀ s, m.call s = n.call s) : m = n :=
  funext h

theorem undisturbed_bind (m : Running α) (f : α → Running β) :
    undisturbed (m >>= f) = undisturbed m >>= fun a => undisturbed (f a) := by
  apply method_ext
  intro t
  rw [undisturbed, undisturbed, within_call, call_bind, call_bind, within_call]
  rcases m.call t.site with ⟨⟨err⟩ | ⟨a⟩, s⟩
  · rfl
  · rfl

theorem outside_bind (wrap : ε → RunError) (m : Method Calls ε α) (f : α → Method Calls ε β) :
    outside wrap (m >>= f) = outside wrap m >>= fun a => outside wrap (f a) := by
  apply method_ext
  intro s
  rw [outside, outside, within_call, call_bind, call_bind, within_call]
  rcases m.call s.calls with ⟨⟨err⟩ | ⟨a⟩, c⟩
  · rfl
  · rfl

theorem undisturbed_pure (a : α) : undisturbed (pure a) = pure a := rfl

theorem outside_pure (wrap : ε → RunError) (a : α) : outside wrap (pure a) = pure a := rfl

theorem outside_within (wrap : ε → RunError) (m : Method Calls ε α) :
    outside id (within id (fun _ c => c) wrap m) = outside wrap m := by
  apply method_ext
  intro s
  rw [outside, outside, within_call, within_call, within_call, id]
  rcases m.call s.calls with ⟨⟨err⟩ | ⟨a⟩, c⟩
  · rfl
  · rfl

end Steps

namespace Faulty

section Single

variable (fails : ℕ → Bool) (legacy : Legacy) (w : Outside) (accounts : List Account)

def materialOf (ref : AccountRef) : LegacyCredentials := accountOf accounts ref.key

/-- What is built for a single account before it is stored. -/
def singlePart (hash : Bytes) (ref : AccountRef) :
    Method Calls RunError (Identity × Membership × MigratedCredentials) := do
  let identity ← newIdentity w (if ref.isServiceAccount then .service else .human) hash .identity
  let p ← accountPart w legacy.organizations identity.id (materialOf accounts ref) ref
    (.organizationNotFound ref.owner) .membership (.credentials ref.owner ref.name)
  pure (identity, p)

def storeSingle (ref : AccountRef) (p : Identity × Membership × MigratedCredentials) :
    Attempting Unit := do
  if p.2.2.forcePasswordReset then
    undisturbed (modify fun s => { s with report := { s.report with
      forcedResets := s.report.forcedResets ++ [orgUser ref.owner ref.name] } })
  persistOrClean fails p.1 [p.2.1] p.2.2.credentials [ref]
  undisturbed (modify fun s => { s with report := { s.report with
    factorLoss := s.report.factorLoss ++ lostFactors [ref] p.2.2.credentials
      p.2.2.forcePasswordReset (orgUser ref.owner ref.name) } })

theorem migrateSingle_eq (hash : Bytes) (ref : AccountRef) :
    migrateSingle fails legacy w accounts hash ref =
      undisturbed (outside id (singlePart legacy w accounts hash ref)) >>=
        storeSingle fails ref := by
  simp only [migrateSingle, singlePart, accountPart, outside_bind, undisturbed_bind, bind_assoc]
  congr 1
  funext identity
  cases legacy.organizations ref.owner with
  | none => rfl
  | some org =>
    simp only [outside_bind, undisturbed_bind, bind_assoc, outside_within, outside_pure,
      undisturbed_pure, pure_bind]
    rfl

end Single

section Vault

variable (vault : ℕ → Option GoString)

/-- The secrets that were put are deleted again or have a credential; nothing else was deleted, and
no other credential was added. -/
structure Accounted (db : Db) (s : Site) : Prop where
  covered : ∀ ref, Answered vault 0 s.calls.puts ref →
    ref ∈ s.deletedSecrets ∨ ref ∈ secretRefs s.db.credentials
  known : ∀ ref, ref ∈ s.deletedSecrets ∨ ref ∈ secretRefs s.db.credentials →
    ref ∈ secretRefs db.credentials ∨ Answered vault 0 s.calls.puts ref

/-- Every secret that the run put, and did not delete again, is referenced by a stored credential. -/
def NoOrphan (s : Site) : Prop :=
  ∀ ref, Answered vault 0 s.calls.puts ref → ref ∉ s.deletedSecrets →
    ∃ cred ∈ s.db.credentials, cred.secretRef = ref

/-- A secret was put since, and no row or deletion followed. -/
structure Abandons (s s' : Site) : Prop where
  db : s'.db = s.db
  deleted : s'.deletedSecrets = s.deletedSecrets
  put : ∃ ref, Answered vault s.calls.puts s'.calls.puts ref

variable {vault} {db : Db} {s s' : Site}

theorem Accounted.noOrphan (h : Accounted vault db s) : NoOrphan vault s := by
  intro ref hput hdel
  rcases h.covered ref hput with hr | hr
  · exact absurd hr hdel
  · exact (mem_secretRefs.mp hr).2

theorem Accounted.of_same (h : Accounted vault db s) (hputs : s'.calls.puts = s.calls.puts)
    (hdel : s'.deletedSecrets = s.deletedSecrets) (hdb : s'.db.credentials = s.db.credentials) :
    Accounted vault db s' := by
  obtain ⟨hcovered, hknown⟩ := h
  refine ⟨?_, ?_⟩
  · rw [hputs, hdel, hdb]
    exact hcovered
  · rw [hputs, hdel, hdb]
    exact hknown

theorem Accounted.extend (h : Accounted vault db s) (hle : s.calls.puts ≤ s'.calls.puts)
    (hmem : ∀ ref, (ref ∈ s'.deletedSecrets ∨ ref ∈ secretRefs s'.db.credentials) ↔
      (ref ∈ s.deletedSecrets ∨ ref ∈ secretRefs s.db.credentials) ∨
        Answered vault s.calls.puts s'.calls.puts ref) : Accounted vault db s' := by
  refine ⟨fun ref hput => (hmem ref).mpr ?_, fun ref hr => ?_⟩
  · rcases (answered_trans (Nat.zero_le _) hle).mp hput with hput | hput
    · exact Or.inl (h.covered ref hput)
    · exact Or.inr hput
  · rcases (hmem ref).mp hr with hr | hput
    · exact (h.known ref hr).imp_right fun hput =>
        (answered_trans (Nat.zero_le _) hle).mpr (Or.inl hput)
    · exact Or.inr ((answered_trans (Nat.zero_le _) hle).mpr (Or.inr hput))

/-- The references that a vault draws: each once, none of them empty, and none that a credential
has already. -/
structure FreshVault (vault : ℕ → Option GoString) (db : Db) : Prop where
  distinct : ∀ m n ref, vault m = some ref → vault n = some ref → m = n
  ne_nil : ∀ n, vault n ≠ some []
  unused : ∀ n ref, vault n = some ref → ref ∉ secretRefs db.credentials

theorem Abandons.not_noOrphan (h : Abandons vault s s') (hs : Accounted vault db s)
    (hfresh : FreshVault vault db) : ¬NoOrphan vault s' := by
  intro hno
  obtain ⟨ref, n, hn, hlt, hv⟩ := h.put
  -- the reference was given after everything that is deleted or stored
  have hnew : ¬(ref ∈ s.deletedSecrets ∨ ref ∈ secretRefs s.db.credentials) := by
    intro hr
    rcases hs.known ref hr with hr | ⟨m, -, hm, hvm⟩
    · exact hfresh.unused n ref hv hr
    · have hmn : m = n := hfresh.distinct m n ref hvm hv
      omega
  have hdel : ref ∉ s'.deletedSecrets := by
    rw [h.deleted]
    exact fun hr => hnew (Or.inl hr)
  obtain ⟨cred, hmem, href⟩ := hno ref ⟨n, Nat.zero_le n, hlt, hv⟩ hdel
  have hne : ref ≠ [] := fun he => hfresh.ne_nil n (he ▸ hv)
  rw [h.db] at hmem
  exact hnew (Or.inr (mem_secretRefs.mpr ⟨hne, cred, hmem, href⟩))

end Vault

section Storing

variable {vault : ℕ → Option GoString} {db : Db} (fails : ℕ → Bool)

def withCalls (t : Attempt) (c : Calls) : Attempt :=
  { t with site := { t.site with calls := c } }

theorem query_cases (q : Query) (t : Attempt) :
    (query fails q).call t = (.error (.database q), { t with queries := t.queries+1 }) ∧
        fails t.queries = true ∨
      (query fails q).call t = (.ok (), { t with queries := t.queries+1 }) ∧
        fails t.queries = false := by
  rw [query, call_get_bind, call_modify_bind]
  cases hf : fails t.queries with
  | true => exact Or.inl ⟨rfl, rfl⟩
  | false => exact Or.inr ⟨rfl, rfl⟩

theorem persistOrClean_faulty_cases (i : Identity) (ms : List Membership) (cs : List Credential)
    (refs : List AccountRef) (t : Attempt) :
    (∃ err t', (persistOrClean fails i ms cs refs).call t = (.error err, t') ∧
      t'.site.calls = t.site.calls ∧ t'.site.db = t.site.db ∧
      t'.site.deletedSecrets = t.site.deletedSecrets ++ secretRefs cs) ∨
    ∃ t', (persistOrClean fails i ms cs refs).call t = (.ok (), t') ∧
      t'.site.calls = t.site.calls ∧ t'.site.db = t.site.db.with i ms cs ∧
      t'.site.deletedSecrets = t.site.deletedSecrets := by
  rw [persistOrClean, call_tryCatch, call_bind]
  rcases query_cases fails .identityRows t with ⟨hq, -⟩ | ⟨hq, -⟩
  · rw [hq]
    exact Or.inl ⟨_, _, rfl, rfl, rfl, rfl⟩
  · rw [hq]
    dsimp only
    rw [undisturbed, within_call, persist, call_get_bind]
    cases hins : t.site.db.insertIdentity i ms cs with
    | error err => exact Or.inl ⟨_, _, rfl, rfl, rfl, rfl⟩
    | ok db' =>
      rw [← insertIdentity_ok hins]
      exact Or.inr ⟨_, rfl, rfl, rfl, rfl⟩

theorem stored_accounted {t : Attempt} (h : Accounted vault db t.site) {c : Calls}
    (hle : t.site.calls.puts ≤ c.puts) {cs : List Credential}
    (hrefs : ∀ ref, ref ∈ secretRefs cs ↔ Answered vault t.site.calls.puts c.puts ref)
    (t' : Attempt) (hcalls : t'.site.calls = c) (hdb : t'.site.db = t.site.db)
    (hdel : t'.site.deletedSecrets = t.site.deletedSecrets) (i : Identity) (ms : List Membership)
    (refs : List AccountRef) (f : Site → Report) :
    Accounted vault db ((persistOrClean fails i ms cs refs >>= fun _ => undisturbed
      (modify fun s => { s with report := f s })).call t').2.site := by
  rw [call_bind]
  rcases persistOrClean_faulty_cases fails i ms cs refs t' with
    ⟨err, u, hcall, hc, hd, hx⟩ | ⟨u, hcall, hc, hd, hx⟩
  · rw [hcall]
    have hu : Accounted vault db u.site := by
      apply h.extend
      · rw [hc, hcalls]
        exact hle
      · intro ref
        rw [hd, hx, hc, hcalls, hdb, hdel, List.mem_append, hrefs]
        tauto
    exact hu
  · rw [hcall]
    have hu : Accounted vault db u.site := by
      apply h.extend
      · rw [hc, hcalls]
        exact hle
      · intro ref
        rw [hd, hx, hc, hcalls, hdb, hdel, Db.with, secretRefs_append, List.mem_append, hrefs]
        tauto
    exact hu.of_same rfl rfl rfl

end Storing

section Settling

variable {vault : ℕ → Option GoString} {db : Db} {fails : ℕ → Bool}

/-- A part of the run: where `strands` holds it fails and abandons a secret, and elsewhere it keeps
the secrets accounted for, failing or not. -/
structure Settles (vault : ℕ → Option GoString) (db : Db) (m : Attempting Unit) (t : Attempt)
    (strands : Prop) : Prop where
  abandons : strands → ∃ err t', m.call t = (.error err, t') ∧ Abandons vault t.site t'.site
  accounts : ¬strands → Accounted vault db (m.call t).2.site

theorem Settles.congr {m n : Attempting Unit} {t t' : Attempt} {strands strands' : Prop}
    (h : Settles vault db m t strands) (hsite : t'.site = t.site) (hcall : n.call t' = m.call t)
    (hstrands : strands' ↔ strands) : Settles vault db n t' strands' := by
  obtain ⟨habandons, haccounts⟩ := h
  refine ⟨fun hs => ?_, fun hs => ?_⟩
  · rw [hcall, hsite]
    exact habandons (hstrands.mp hs)
  · rw [hcall]
    exact haccounts fun h => hs (hstrands.mpr h)

theorem settles_of_accounted {m : Attempting Unit} {t : Attempt} {strands : Prop} (hs : ¬strands)
    (h : Accounted vault db (m.call t).2.site) : Settles vault db m t strands :=
  ⟨fun h' => absurd h' hs, fun _ => h⟩

theorem settles_of_builds {ε α : Type} {m : Method Calls ε α} {wrap : ε → RunError} {t : Attempt}
    {ok strands : Prop} {c₁ : Calls} {refs : α → List GoString} {k : α → Attempting Unit}
    (hb : Builds vault m t.site.calls ok c₁ [] refs strands) (hexcl : strands → ¬ok)
    (h : Accounted vault db t.site)
    (hk : ∀ a, t.site.calls.puts ≤ c₁.puts →
      (∀ ref, ref ∈ refs a ↔ Answered vault t.site.calls.puts c₁.puts ref) →
      Accounted vault db ((k a).call (withCalls t c₁)).2.site) :
    Settles vault db (undisturbed (outside wrap m) >>= k) t strands := by
  by_cases hok : ok
  · obtain ⟨hle, a, hcall, hrefs⟩ := hb.returns hok
    have hrest : (undisturbed (outside wrap m) >>= k).call t = (k a).call (withCalls t c₁) := by
      rw [call_bind, undisturbed, within_call, outside, within_call, hcall]
      rfl
    apply settles_of_accounted fun hs => hexcl hs hok
    rw [hrest]
    exact hk a hle fun ref => (hrefs ref).trans (or_iff_right List.not_mem_nil)
  · obtain ⟨err, c, hcall, hle, hstrands⟩ := hb.errs hok
    have hrest : (undisturbed (outside wrap m) >>= k).call t =
        (.error (.run (wrap err)), withCalls t c) := by
      rw [call_bind, undisturbed, within_call, outside, within_call, hcall]
      rfl
    refine ⟨fun hs => ⟨_, _, hrest, rfl, rfl, hstrands.mp hs⟩, fun hs => ?_⟩
    rw [hrest]
    apply h.extend hle
    intro ref
    have hnone : ¬Answered vault t.site.calls.puts c.puts ref :=
      fun hput => hs (hstrands.mpr ⟨ref, hput⟩)
    exact (or_iff_left hnone).symm

end Settling

section Works

variable (fails : ℕ → Bool) (legacy : Legacy) (w : Outside) (accounts : List Account)
  (approvals : GoString → Option Approval) (vault : ℕ → Option GoString)

/-- What a run does for one group or one account without e-mail. -/
inductive Work
  | single (g : Group)
  | noEmail (ref : AccountRef)
  | candidate (g : Group)

def Work.run : Work → Attempting Unit
  | .single g => runSingle fails legacy w accounts g
  | .noEmail ref => migrateSingle fails legacy w accounts [] ref
  | .candidate g => runCandidate fails legacy w accounts approvals g

def works (inventory : Inventory) : List Work :=
  inventory.singles.map .single ++ (inventory.noEmail.map .noEmail ++
    inventory.fusionCandidates.map .candidate)

/-- The lookup of the hash answers, and finds no identity. -/
def Absent (hash : Bytes) (t : Attempt) : Prop :=
  (hash = [] ∨ fails t.queries = false) ∧ t.site.db.hasHash hash = false

/-- From these calls on, a seed goes to the vault for a new identity, and a later part of the same
identity fails: an organization, a UUID, or the TOTP credential of an empty reference. -/
def StrandsSeed (material : AccountRef → LegacyCredentials) (c : Calls)
    (refs : List AccountRef) : Prop :=
  IdentityDrawn w c ∧
    SeedStranded w vault legacy.organizations material (afterIdentity c) refs

/-- The work strands a seed, in the state that it starts from. -/
def Work.Strands (t : Attempt) : Work → Prop
  | .single g => Absent fails (mustHash g.emailHashHex) t ∧ StrandsSeed legacy w vault
      (materialOf accounts) t.site.calls g.accounts.head?.toList
  | .noEmail ref =>
    StrandsSeed legacy w vault (materialOf accounts) t.site.calls [ref]
  | .candidate g => ∃ approval, approvals g.emailHashHex = some approval ∧
      Absent fails (mustHash g.emailHashHex) t ∧ Accepts ⟨g, approval, accountOf accounts⟩ ∧
      StrandsSeed legacy w vault (Plan.material ⟨g, approval, accountOf accounts⟩) t.site.calls
        g.accounts

variable {fails legacy w accounts approvals vault} {db : Db} {t : Attempt}

theorem singlePart_builds (hput : ∀ n secret, w.put n secret = vault n) (hash : Bytes)
    (ref : AccountRef) (c : Calls) :
    Builds vault (singlePart legacy w accounts hash ref) c
      (IdentityDrawn w c ∧ AllBuilt w vault legacy.organizations
        (materialOf accounts) (afterIdentity c) [ref])
      (afterAccount (materialOf accounts) (afterIdentity c) ref) []
      (fun p => secretRefs p.2.2.credentials)
      (StrandsSeed legacy w vault (materialOf accounts) c [ref]) := by
  apply newIdentity_builds
  · intro i hi
    have hpart : Builds vault (accountPart w legacy.organizations i.id (materialOf accounts ref)
        ref (.organizationNotFound ref.owner) RunError.membership
        (.credentials ref.owner ref.name) >>= fun p => pure (i, p)) (afterIdentity c)
        (AccountBuilt w vault legacy.organizations (materialOf accounts)
          (afterIdentity c) ref) (afterAccount (materialOf accounts)
          (afterIdentity c) ref) [] (fun p => secretRefs p.2.2.credentials)
        (AccountVaulted w vault legacy.organizations (materialOf accounts)
          (afterIdentity c) ref) :=
      (accountPart_builds hput hi (materialOf accounts) (afterIdentity c) ref _ _ _).append fun _ => rfl
    apply hpart.congr (and_iff_left trivial) rfl
    intro hnot
    rw [seedStranded_cons]
    constructor
    · rintro (⟨hv, -⟩ | ⟨-, h⟩)
      · exact hv
      · exact absurd h seedStranded_nil
    · exact fun hv => Or.inl ⟨hv, fun h => hnot h.1⟩
  · intro i hi
    obtain ⟨err, d, hcall, hputs⟩ := accountPart_nil (w := w) hi (materialOf accounts ref) ref
      (.organizationNotFound ref.owner) RunError.membership (.credentials ref.owner ref.name)
      (afterIdentity c)
    exact ⟨err, d, by rw [call_bind, hcall], hputs⟩

theorem migrateSingle_settles (hput : ∀ n secret, w.put n secret = vault n)
    (h : Accounted vault db t.site) (hash : Bytes) (ref : AccountRef) :
    Settles vault db (migrateSingle fails legacy w accounts hash ref) t
      (StrandsSeed legacy w vault (materialOf accounts) t.site.calls [ref]) := by
  rw [migrateSingle_eq]
  apply settles_of_builds (singlePart_builds hput hash ref t.site.calls) ?_ h
  · intro p hle hrefs
    obtain ⟨i, m, cs, reset⟩ := p
    have hstored := stored_accounted fails h hle hrefs
    -- a forced reset only goes to the report
    cases reset with
    | true =>
      refine hstored _ ?_ ?_ ?_ i [m] [ref] _
      · rfl
      · rfl
      · rfl
    | false =>
      refine hstored _ ?_ ?_ ?_ i [m] [ref] _
      · rfl
      · rfl
      · rfl
  · exact fun hs hok => hs.2.not_allBuilt hok.2

theorem identityExistsByHash_cases (fails : ℕ → Bool) (hash : Bytes) (t : Attempt) :
    (¬Absent fails hash t ∧ ∃ r t', (identityExistsByHash fails hash).call t = (r, t') ∧
      t'.site = t.site ∧ r ≠ .ok false) ∨
    (Absent fails hash t ∧ ∃ t', (identityExistsByHash fails hash).call t = (.ok false, t') ∧
      t'.site = t.site) := by
  by_cases hnil : hash = []
  · refine Or.inr ⟨⟨Or.inl hnil, by rw [hnil]; rfl⟩, t, ?_, rfl⟩
    rw [identityExistsByHash, if_pos hnil]
    rfl
  · rw [identityExistsByHash, if_neg hnil, call_bind]
    rcases query_cases fails .existingIdentity t with ⟨hq, hf⟩ | ⟨hq, hf⟩
    · rw [hq]
      refine Or.inl ⟨?_, _, _, rfl, rfl, ?_⟩
      · rintro ⟨hn | hn, -⟩
        · exact hnil hn
        · rw [hf] at hn
          cases hn
      · intro he
        cases he
    · rw [hq]
      cases hhas : t.site.db.hasHash hash with
      | true =>
        refine Or.inl ⟨fun ha => ?_, .ok true, { t with queries := t.queries+1 }, ?_, rfl, ?_⟩
        · rw [Absent, hhas] at ha
          cases ha.2
        · rw [← hhas]
          rfl
        · intro he
          cases he
      | false =>
        refine Or.inr ⟨⟨Or.inr hf, hhas⟩, { t with queries := t.queries+1 }, ?_, rfl⟩
        rw [← hhas]
        rfl

theorem settles_of_lookup {hash : Bytes} {f : Bool → Attempting Unit} {strands : Prop}
    (h : Accounted vault db t.site)
    (hfound : ∀ t', t'.site = t.site → Accounted vault db ((f true).call t').2.site)
    (hnone : ∀ t', t'.site = t.site → Settles vault db (f false) t' strands) :
    Settles vault db (identityExistsByHash fails hash >>= f) t (Absent fails hash t ∧ strands) := by
  rcases identityExistsByHash_cases fails hash t with
    ⟨hn, r, t', hcall, hsite, hr⟩ | ⟨hyes, t', hcall, hsite⟩
  · apply settles_of_accounted fun hs => hn hs.1
    rw [call_bind, hcall]
    cases r with
    | error err => exact hsite ▸ h
    | ok found =>
      cases found with
      | true => exact hfound t' hsite
      | false => exact absurd rfl hr
  · apply (hnone t' hsite).congr hsite.symm
    · rw [call_bind, hcall]
    · exact and_iff_right hyes

theorem forEach_singleton (f : AccountRef → Attempting Unit) (r : AccountRef) :
    forEach f [r] = f r := by
  simp only [forEach, bind_pure_unit]

theorem runSingle_settles (hput : ∀ n secret, w.put n secret = vault n)
    (h : Accounted vault db t.site) (g : Group) :
    Settles vault db (runSingle fails legacy w accounts g) t
      (Work.Strands fails legacy w accounts approvals vault t (.single g)) := by
  apply settles_of_lookup h
  · intro t' hsite
    exact (hsite ▸ h : Accounted vault db t'.site).of_same rfl rfl rfl
  · intro t' hsite
    have h' : Accounted vault db t'.site := hsite ▸ h
    cases g.accounts.head? with
    | none => exact settles_of_accounted (fun hs => seedStranded_nil hs.2) h'
    | some r =>
      rw [Option.toList_some, ← hsite]
      have hone : Settles vault db (migrateSingle fails legacy w accounts (mustHash g.emailHashHex) r)
          t' (StrandsSeed legacy w vault (materialOf accounts) t'.site.calls [r]) :=
        migrateSingle_settles hput h' (mustHash g.emailHashHex) r
      rw [← forEach_singleton (migrateSingle fails legacy w accounts (mustHash g.emailHashHex)) r]
        at hone
      exact hone

theorem fuse_settles (hput : ∀ n secret, w.put n secret = vault n)
    (h : Accounted vault db t.site) (plan : Plan) (refs : List AccountRef)
    (report : Fused → Site → Report) :
    Settles vault db (undisturbed (outside .fusion (fuse w legacy.organizations plan)) >>=
      fun fused => persistOrClean fails fused.identity fused.memberships fused.credentials refs >>=
      fun _ => undisturbed (modify fun s => { s with report := report fused s })) t
      (Accepts plan ∧
        StrandsSeed legacy w vault plan.material t.site.calls plan.group.accounts) := by
  apply settles_of_builds (fuse_builds plan hput t.site.calls) ?_ h
  · intro fused hle hrefs
    refine stored_accounted fails h hle hrefs _ ?_ ?_ ?_ fused.identity fused.memberships refs _
    · rfl
    · rfl
    · rfl
  · exact fun hs hok => hs.2.2.not_allBuilt hok.2.2

theorem runCandidate_settles (hput : ∀ n secret, w.put n secret = vault n)
    (h : Accounted vault db t.site) (g : Group) :
    Settles vault db (runCandidate fails legacy w accounts approvals g) t
      (Work.Strands fails legacy w accounts approvals vault t (.candidate g)) := by
  rw [runCandidate, Work.Strands]
  cases happroval : approvals g.emailHashHex with
  | none =>
    apply settles_of_accounted
    · rintro ⟨approval, ha, -⟩
      cases ha
    · exact h.of_same rfl rfl rfl
  | some approval =>
    have hlooked : Settles vault db (runCandidate fails legacy w accounts approvals g) t
        (Absent fails (mustHash g.emailHashHex) t ∧ Accepts ⟨g, approval, accountOf accounts⟩ ∧
          StrandsSeed legacy w vault (Plan.material ⟨g, approval, accountOf accounts⟩)
            t.site.calls g.accounts) := by
      rw [runCandidate, happroval]
      apply settles_of_lookup h
      · intro t' hsite
        exact (hsite ▸ h : Accounted vault db t'.site).of_same rfl rfl rfl
      · intro t' hsite
        rw [← hsite]
        exact fuse_settles hput (hsite ▸ h) ⟨g, approval, accountOf accounts⟩ g.accounts _
    rw [runCandidate, happroval] at hlooked
    apply hlooked.congr rfl rfl
    constructor
    · rintro ⟨approval', ha, hrest⟩
      obtain rfl := Option.some.inj ha
      exact hrest
    · exact fun hrest => ⟨approval, rfl, hrest⟩

theorem Work.settles (hput : ∀ n secret, w.put n secret = vault n)
    (h : Accounted vault db t.site) (k : Work) :
    Settles vault db (k.run fails legacy w accounts approvals) t
      (k.Strands fails legacy w accounts approvals vault t) := by
  cases k with
  | single g => exact runSingle_settles hput h g
  | noEmail ref => exact migrateSingle_settles hput h [] ref
  | candidate g => exact runCandidate_settles hput h g

end Works

section Run

variable {fails : ℕ → Bool} {legacy : Legacy} {w : Outside} {accounts : List Account}
  {approvals : GoString → Option Approval} {vault : ℕ → Option GoString} {db : Db} {t : Attempt}

theorem Work.run_ok (hput : ∀ n secret, w.put n secret = vault n)
    (h : Accounted vault db t.site) {k : Work} {t' : Attempt}
    (hcall : (k.run fails legacy w accounts approvals).call t = (.ok (), t')) :
    Accounted vault db t'.site := by
  have hk : Settles vault db (k.run fails legacy w accounts approvals) t
      (k.Strands fails legacy w accounts approvals vault t) := k.settles hput h
  have hno : ¬k.Strands fails legacy w accounts approvals vault t := by
    intro hs
    obtain ⟨err, u, herr, -⟩ := hk.abandons hs
    rw [hcall] at herr
    cases herr
  have haccounts := hk.accounts hno
  rw [hcall] at haccounts
  exact haccounts

theorem works_ok (hput : ∀ n secret, w.put n secret = vault n) (h : Accounted vault db t.site)
    {ks : List Work} {t' : Attempt}
    (hcall : (forEach (Work.run fails legacy w accounts approvals) ks).call t = (.ok (), t')) :
    Accounted vault db t'.site := by
  induction ks generalizing t with
  | nil =>
    obtain ⟨-, rfl⟩ := (pure_ok t).mp hcall
    exact h
  | cons k ks ih =>
    obtain ⟨_, u, hone, hrest⟩ := (bind_ok t).mp hcall
    exact ih (Work.run_ok hput h hone) hrest

theorem works_accounted (hput : ∀ n secret, w.put n secret = vault n)
    (h : Accounted vault db t.site) {ks : List Work}
    (hno : ∀ pre k post t', ks = pre ++ k :: post →
      (forEach (Work.run fails legacy w accounts approvals) pre).call t = (.ok (), t') →
      ¬k.Strands fails legacy w accounts approvals vault t') :
    Accounted vault db
      ((forEach (Work.run fails legacy w accounts approvals) ks).call t).2.site := by
  induction ks generalizing t with
  | nil => exact h
  | cons k ks ih =>
    have hk : Settles vault db (k.run fails legacy w accounts approvals) t
        (k.Strands fails legacy w accounts approvals vault t) := k.settles hput h
    have hone := hk.accounts (hno [] k ks t rfl rfl)
    rw [forEach, call_bind]
    rcases hcall : (k.run fails legacy w accounts approvals).call t with ⟨⟨err⟩ | ⟨_⟩, u⟩
    · rw [hcall] at hone
      exact hone
    · rw [hcall] at hone
      apply ih hone
      intro pre k' post t' hsplit hpre
      apply hno (k :: pre) k' post t' (by rw [hsplit]; rfl)
      rw [forEach, call_bind, hcall]
      exact hpre

theorem works_abandon (hput : ∀ n secret, w.put n secret = vault n)
    (h : Accounted vault db t.site) {pre post : List Work} {k : Work} {t' : Attempt}
    (hpre : (forEach (Work.run fails legacy w accounts approvals) pre).call t = (.ok (), t'))
    (hs : k.Strands fails legacy w accounts approvals vault t') :
    ∃ err u, (forEach (Work.run fails legacy w accounts approvals) (pre ++ k :: post)).call t =
      (.error err, u) ∧ Accounted vault db t'.site ∧ Abandons vault t'.site u.site := by
  have h' : Accounted vault db t'.site := works_ok hput h hpre
  have hk : Settles vault db (k.run fails legacy w accounts approvals) t'
      (k.Strands fails legacy w accounts approvals vault t') := k.settles hput h'
  obtain ⟨err, u, hcall, habandons⟩ := hk.abandons hs
  refine ⟨err, u, ?_, h', habandons⟩
  rw [forEach_append, call_bind, hpre]
  dsimp only
  rw [forEach, call_bind, hcall]

section Roles

variable {α : Type} {P : α → Prop}

theorem yields_undisturbed {m : Running α} (h : m.Yields (Accounted vault db) P) :
    (undisturbed m).Yields (fun t => Accounted vault db t.site) P := by
  intro t ht
  obtain ⟨hI, hP⟩ := h t.site ht
  rw [undisturbed, within_call]
  rcases hcall : m.call t.site with ⟨⟨err⟩ | ⟨a⟩, s⟩
  · rw [hcall] at hI
    exact ⟨hI, fun b hb => by cases hb⟩
  · rw [hcall] at hI hP
    exact ⟨hI, fun b hb => hP b (congrArg Except.ok (Except.ok.inj hb))⟩

theorem yields_query (q : Query) :
    (query fails q).Yields (fun t => Accounted vault db t.site) fun _ => True := by
  intro t ht
  rcases query_cases fails q t with ⟨hq, -⟩ | ⟨hq, -⟩
  · rw [hq]
    exact ⟨ht, fun _ _ => trivial⟩
  · rw [hq]
    exact ⟨ht, fun _ _ => trivial⟩

theorem yields_drawUuid (err : RunError) :
    (outside id (newUuid w err)).Yields (Accounted vault db) fun _ => True := by
  intro s hs
  refine ⟨?_, fun _ _ => trivial⟩
  rw [outside, within_call, newUuid, call_get_bind, call_modify_bind]
  cases w.newV7 s.calls.drawn with
  | none => exact hs.of_same rfl rfl rfl
  | some u => exact hs.of_same rfl rfl rfl

theorem yields_repointUsers {roleId : Uuid} {resolve : GoString → Option ResolvedMembership}
    (seen : List Uuid) (users : List GoString) :
    (repointUsers w roleId resolve seen users).Yields (Accounted vault db) fun _ => True := by
  induction users generalizing seen with
  | nil => exact yields_pure trivial
  | cons u us ih =>
    rw [Migration.repointUsers]
    split_ifs with hu
    · exact ih seen
    · cases resolve u with
      | none => exact (ih seen).bind fun _ _ => yields_pure trivial
      | some rm =>
        dsimp only
        split_ifs with hseen
        · exact ih seen
        · apply yields_refuseIf.bind
          intro _ _
          apply (yields_drawUuid (RunError.roleAssignment u)).bind
          intro _ _
          exact (ih (rm.membershipId :: seen)).bind fun _ _ => yields_pure trivial

theorem yields_persistAssignments (as : List RoleAssignment) :
    (persistAssignments fails as).Yields (fun t => Accounted vault db t.site) fun _ => True := by
  apply (yields_query .assignments).bind
  intro _ _
  apply yields_undisturbed
  intro s hs
  rw [Migration.persistAssignments, call_get_bind]
  cases hins : s.db.insertAssignments as with
  | error err => exact ⟨hs, fun _ _ => trivial⟩
  | ok db' =>
    rw [insertAssignments_ok hins]
    exact ⟨hs.of_same rfl rfl rfl, fun _ _ => trivial⟩

theorem yields_report (f : Site → Report) :
    (undisturbed (modify fun s => { s with report := f s })).Yields
      (fun t => Accounted vault db t.site) fun _ => True :=
  yields_undisturbed (yields_modify fun _ hs => hs.of_same rfl rfl rfl)

theorem yields_migrateRoles :
    (migrateRoles fails legacy w).Yields (fun t => Accounted vault db t.site) fun _ => True := by
  apply (yields_query .roles).bind
  intro _ _
  cases readRoles legacy legacy.roles with
  | error err => exact yields_throw
  | ok roles =>
    apply Yields.forEach
    intro role _
    apply yields_get_bind
    intro t _
    apply (yields_undisturbed yields_refuseIf).bind
    intro _ _
    apply (yields_undisturbed (yields_repointUsers [] role.2)).bind
    intro res _
    apply (yields_report _).bind
    intro _ _
    exact Yields.forEach fun org _ => yields_persistAssignments _

end Roles

end Run

section Rehearsal

variable (fails : ℕ → Bool) (legacy : Legacy) (w : Outside)
  (approvals : GoString → Option Approval) (hashEmail : HashEmail) (db : Db)

def start : Attempt := ⟨⟨db, ⟨0, 0, 0⟩, Report.empty, fun _ => none, []⟩, 0⟩

/-- The run once the accounts are read, and their conflicts reported. -/
def opened (conflicts : List Conflict) : Attempt :=
  ⟨⟨db, ⟨0, 0, 0⟩, { Report.empty with conflicts := conflicts }, fun _ => none, []⟩, 1⟩

/-- What follows the last identity. -/
def finish : Attempting Unit := do
  migrateRoles fails legacy w
  query fails .duplicates
  undisturbed (modify fun s => { s with report := { s.report with
    duplicateHumanEmails := s.db.duplicateHumans
    pendingApproval := sortBy bytesLess s.report.pendingApproval
    factorLoss := sortBy bytesLess s.report.factorLoss } })

/-- Some work that the run reaches strands a seed, in the state that the works before it left. -/
def StrandsSomewhere (vault : ℕ → Option GoString) : Prop :=
  ∃ accounts pre k post t, fails 0 = false ∧ extractAccounts legacy legacy.users = .ok accounts ∧
    works (buildInventory hashEmail (accounts.map (·.ref))) = pre ++ k :: post ∧
    (forEach (Work.run fails legacy w accounts approvals) pre).call
      (opened db (buildInventory hashEmail (accounts.map (·.ref))).conflicts) = (.ok (), t) ∧
    k.Strands fails legacy w accounts approvals vault t

variable {fails legacy w approvals hashEmail db} {vault : ℕ → Option GoString}

theorem rehearse_opened {accounts : List Account} (hopen : fails 0 = false)
    (hext : extractAccounts legacy legacy.users = .ok accounts) :
    (rehearse fails legacy w approvals hashEmail).call (start db) =
      (forEach (Work.run fails legacy w accounts approvals)
        (works (buildInventory hashEmail (accounts.map (·.ref)))) >>= fun _ =>
        finish fails legacy w).call
        (opened db (buildInventory hashEmail (accounts.map (·.ref))).conflicts) := by
  have hquery : (query fails .legacyUsers).call (start db) = (.ok (), ⟨(start db).site, 1⟩) := by
    rcases query_cases fails .legacyUsers (start db) with ⟨-, hf⟩ | ⟨hq, -⟩
    · rw [start, hopen] at hf
      cases hf
    · exact hq
  have hstart : (undisturbed (modify fun s => { s with
      report := Report.empty, membershipByOrgUser := fun _ => none })).call (start db) =
      (.ok (), start db) := rfl
  rw [rehearse, call_bind, hstart]
  dsimp only
  rw [call_bind, hquery]
  dsimp only
  rw [hext]
  -- the three loops are one over all the works
  simp only [works, forEach_append, forEach_map, bind_assoc]
  rfl

theorem accounted_opened (conflicts : List Conflict) :
    Accounted vault db (opened db conflicts).site := by
  refine ⟨fun ref hput => absurd hput answered_self, fun ref hr => Or.inl ?_⟩
  exact hr.resolve_left List.not_mem_nil

theorem yields_finish :
    (finish fails legacy w).Yields (fun t => Accounted vault db t.site) fun _ => True := by
  apply yields_migrateRoles.bind
  intro _ _
  apply (yields_query .duplicates).bind
  intro _ _
  exact yields_report _

theorem rehearse_unopened (h : fails 0 = true ∨ ∃ err, extractAccounts legacy legacy.users =
    .error err) : Accounted vault db
      ((rehearse fails legacy w approvals hashEmail).call (start db)).2.site := by
  have hstart : Accounted vault db (start db).site := accounted_opened []
  rw [rehearse, call_bind]
  have hreset : (undisturbed (modify fun s => { s with
      report := Report.empty, membershipByOrgUser := fun _ => none })).call (start db) =
      (.ok (), start db) := rfl
  rw [hreset]
  dsimp only
  rw [call_bind]
  rcases query_cases fails .legacyUsers (start db) with ⟨hq, -⟩ | ⟨hq, hf⟩
  · rw [hq]
    exact hstart
  · rw [hq]
    obtain ⟨err, herr⟩ := h.resolve_left fun hopen => by
      rw [start, hopen] at hf
      cases hf
    dsimp only
    rw [herr]
    exact hstart

theorem rehearse_accounted (hput : ∀ n secret, w.put n secret = vault n)
    (hno : ¬StrandsSomewhere fails legacy w approvals hashEmail db vault) :
    Accounted vault db ((rehearse fails legacy w approvals hashEmail).call (start db)).2.site := by
  cases hopen : fails 0 with
  | true => exact rehearse_unopened (Or.inl hopen)
  | false =>
    cases hext : extractAccounts legacy legacy.users with
    | error e => exact rehearse_unopened (Or.inr ⟨e, hext⟩)
    | ok accounts =>
      rw [rehearse_opened hopen hext]
      let I : Attempt → Prop := fun t => Accounted vault db t.site
      have hworks : I ((forEach (Work.run fails legacy w accounts approvals)
          (works (buildInventory hashEmail (accounts.map (·.ref))))).call (opened db
          (buildInventory hashEmail (accounts.map (·.ref))).conflicts)).2 := by
        apply works_accounted hput (accounted_opened _)
        exact fun pre k post t hsplit hpre hs =>
          hno ⟨accounts, pre, k, post, t, hopen, hext, hsplit, hpre, hs⟩
      exact bind_snd (I := I) (J := I) hworks (fun _ hu => hu) fun _ u hu => (yields_finish u hu).1

/-- Of the secrets that a failed run put, each that is not deleted again has its row, unless some
work that the run reaches strands a seed; with a vault that draws fresh references, exactly then. -/
theorem rehearsal_leaves_no_orphan_iff (fails : ℕ → Bool) (legacy : Legacy) (w : Outside)
    (approvals : GoString → Option Approval) (hashEmail : HashEmail) (db : Db)
    (vault : ℕ → Option GoString) :
    (¬StrandsSomewhere fails legacy (w.withVault vault) approvals hashEmail db vault →
      ∀ err t, (rehearse fails legacy (w.withVault vault) approvals hashEmail).call (start db) =
        (.error err, t) → NoOrphan vault t.site) ∧
    (FreshVault vault db →
      (∀ err t, (rehearse fails legacy (w.withVault vault) approvals hashEmail).call (start db) =
        (.error err, t) → NoOrphan vault t.site) →
      ¬StrandsSomewhere fails legacy (w.withVault vault) approvals hashEmail db vault) := by
  have hput : ∀ n secret, (w.withVault vault).put n secret = vault n := fun _ _ => rfl
  constructor
  · intro hno err t hcall
    have haccounted := rehearse_accounted hput hno
    rw [hcall] at haccounted
    exact haccounted.noOrphan
  · rintro hfresh hall ⟨accounts, pre, k, post, t, hopen, hext, hsplit, hpre, hs⟩
    obtain ⟨err, u, hcall, h, habandons⟩ : ∃ err u,
        (forEach (Work.run fails legacy (w.withVault vault) accounts approvals)
          (pre ++ k :: post)).call (opened db
          (buildInventory hashEmail (accounts.map (·.ref))).conflicts) = (.error err, u) ∧
        Accounted vault db t.site ∧ Abandons vault t.site u.site :=
      works_abandon hput (accounted_opened _) hpre hs
    have herr : (rehearse fails legacy (w.withVault vault) approvals hashEmail).call (start db) =
        (.error err, u) := by
      rw [rehearse_opened hopen hext, hsplit, call_bind, hcall]
    exact habandons.not_noOrphan h hfresh (hall err u herr)

end Rehearsal

end Faulty

namespace Sample

/-- A person with an account in each of two organizations, of which the second is gone; the first
has a TOTP seed. -/
def twins : Legacy where
  users := [⟨utf8 "acme", utf8 "ana", utf8 "ana@x", [], [], [], [], utf8 "seed", [], []⟩,
    ⟨utf8 "beta", utf8 "ana", utf8 "ana@x", [], [], [], [], [], [], []⟩]
  roles := []
  organizations owner := if owner = utf8 "acme" then some 5 else none
  unmarshalStrings _ := none
  unmarshalRaw _ := none

def twinsHash : GoString := hexEncode (Sha256.sha256 (utf8 "ana@x"))

/-- The fusion of the two is approved, with the first as the primary account. -/
def twinsApproved (hash : GoString) : Option Approval :=
  if hash = twinsHash then some ⟨utf8 "eva", twinsHash, ⟨utf8 "acme", utf8 "ana"⟩⟩ else none

/-- The references are numbers of so many digits. -/
def sealedRefs (n : ℕ) : Option GoString := some (List.replicate (n+1) 49)

def emptyDb : Db := ⟨[], [], [], []⟩

def twinsRun : Except AttemptError Unit × Attempt :=
  (Faulty.rehearse (fun _ => false) twins (outside.withVault sealedRefs) twinsApproved
    digestEmail).call (Faulty.start emptyDb)

theorem sealedRefs_fresh : Faulty.FreshVault sealedRefs emptyDb := by
  refine ⟨fun m n ref hm hn => ?_, fun n h => ?_, fun n ref _ h => absurd h List.not_mem_nil⟩
  · have hlen := congrArg List.length (Option.some.inj (hm.trans hn.symm))
    rw [List.length_replicate, List.length_replicate] at hlen
    exact Nat.succ.inj hlen
  · exact List.replicate_succ_ne_nil (Option.some.inj h)

/-- The same with both organizations, on a database that fails when the roles are read. -/
def reunited : Legacy :=
  { twins with organizations := fun owner => if owner = utf8 "acme" then some 5 else some 6 }

def reunitedRun : Except AttemptError Unit × Attempt :=
  (Faulty.rehearse (fun n => n = 3) reunited (outside.withVault sealedRefs) twinsApproved
    digestEmail).call (Faulty.start emptyDb)

end Sample

/-- There the run fails with its one seed in the vault and in its row, so it has stranded none. -/
theorem rehearsal_keeps_seed : Sample.reunitedRun.1 = .error (.database .roles) ∧
    Sample.reunitedRun.2.site.calls.puts = 1 ∧
    ¬Faulty.StrandsSomewhere (fun n => n = 3) Sample.reunited
      (Sample.outside.withVault Sample.sealedRefs) Sample.twinsApproved Sample.digestEmail
      Sample.emptyDb Sample.sealedRefs := by
  obtain ⟨herr, hputs, hcreds⟩ : Sample.reunitedRun.1 = .error (.database .roles) ∧
      Sample.reunitedRun.2.site.calls.puts = 1 ∧
      secretRefs Sample.reunitedRun.2.site.db.credentials = [[49]] := by
    decide +kernel
  refine ⟨herr, hputs, ?_⟩
  apply (Faulty.rehearsal_leaves_no_orphan_iff (fun n => n = 3) Sample.reunited Sample.outside
    Sample.twinsApproved Sample.digestEmail Sample.emptyDb Sample.sealedRefs).2
    Sample.sealedRefs_fresh
  intro err t hcall ref hput _
  have ht : Sample.reunitedRun.2 = t := congrArg Prod.snd hcall
  rw [← ht] at hput ⊢
  rw [hputs] at hput
  have href : some [49] = some ref := answered_succ.mp hput
  obtain rfl := Option.some.inj href
  exact (mem_secretRefs.mp (hcreds ▸ List.mem_singleton_self _)).2

/-- The second account fails the fusion after the seed of the first went to the vault: the seed
stays there, and no row refers to it. -/
theorem fusion_orphans_seed : Faulty.FreshVault Sample.sealedRefs Sample.emptyDb ∧
    Sample.twinsRun.1 = .error (.run (.fusion (.unresolvedOrganization (utf8 "beta")))) ∧
    ¬Faulty.NoOrphan Sample.sealedRefs Sample.twinsRun.2.site := by
  obtain ⟨herr, hputs, hdel, hcreds⟩ :
      Sample.twinsRun.1 = .error (.run (.fusion (.unresolvedOrganization (utf8 "beta")))) ∧
      Sample.twinsRun.2.site.calls.puts = 1 ∧ Sample.twinsRun.2.site.deletedSecrets = [] ∧
      Sample.twinsRun.2.site.db.credentials = [] := by
    decide +kernel
  refine ⟨Sample.sealedRefs_fresh, herr, fun hno => ?_⟩
  obtain ⟨cred, hmem, -⟩ := hno [49] ⟨0, le_refl 0, by rw [hputs]; exact Nat.one_pos, rfl⟩
    (by rw [hdel]; exact List.not_mem_nil)
  rw [hcreds] at hmem
  exact absurd hmem List.not_mem_nil

end ArchGuard.Migration
