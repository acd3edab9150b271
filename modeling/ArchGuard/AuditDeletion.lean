import ArchGuard.AuditTrail

/-! Which deletions of stored events the verification of an organization reveals. -/
namespace ArchGuard.Audit
open ReadCommitted TransitionRun

/-- The rows that remain when the organization's events in `gone` are deleted. -/
def keepRow (org : Uuid) (gone : SealedEvent → Bool) : (k : Key) → Row k → Bool
  | .event o _ _, v => !(o = org && gone v.1)
  | _, _ => true

def deleteEvents (db : Db) (org : Uuid) (gone : SealedEvent → Bool) : Db :=
  db.filterRows (keepRow org gone)

/-- An event is deleted before one that is kept, or within a sealed range, or the
sealed ranges do not follow one another. -/
def Evident (db : Db) (org : Uuid) (gone : SealedEvent → Bool) : Prop :=
  (∃ a ∈ trailEvents db org, ∃ b ∈ trailEvents db org,
      gone a = true ∧ gone b = false ∧ a.seq < b.seq) ∨
    (∃ a ∈ trailEvents db org, ∃ s ∈ sortedSeals org db, gone a = true ∧ a.seq ≤ s.seqEnd) ∨
    ¬Tiles 0 (sortedSeals org db)

section Chain

variable {nfc : GoText.GoString → GoText.GoString} {g : Bytes} {i : ℕ} {es : List SealedEvent}

/-- What is left of a linked chain has no divergence exactly if it is a first part of it. -/
theorem firstDivergence_filter (keep : SealedEvent → Bool) (hp : g.length = auditHashSize)
    (h : Linked nfc g i es) :
    firstDivergence nfc g i (es.filter keep) = none ↔
      es.Pairwise fun a b => keep b = true → keep a = true := by
  induction es generalizing g i with
  | nil => exact iff_of_true rfl List.Pairwise.nil
  | cons e es ih =>
    obtain ⟨hseq, hprev, hhash, hrest⟩ := h
    have hlen : e.hash.length = auditHashSize := hhash ▸ length_linkHash g e.event
    rw [List.pairwise_cons]
    by_cases hk : keep e = true
    -- a kept event links as before: the walk goes on behind it
    · rw [List.filter_cons_of_pos hk, firstDivergence_cons _ hp hseq hprev hhash, ih hlen hrest]
      exact ⟨fun hpw => ⟨fun _ _ _ => hk, hpw⟩, And.right⟩
    · rw [List.filter_cons_of_neg hk]
      -- what follows a deleted event can only be deleted too
      rcases hf : es.filter keep with _ | ⟨b, bs⟩
      · have hnone := List.filter_eq_nil_iff.mp hf
        refine iff_of_true rfl ⟨fun b hb hb' => absurd hb' (hnone b hb), ?_⟩
        exact List.Pairwise.imp_of_mem (fun _ hb _ hb' => absurd hb' (hnone _ hb))
          (List.pairwise_of_forall (R := fun _ _ => True) fun _ _ => trivial)
      · have hb : b ∈ es ∧ keep b = true := List.mem_filter.mp (hf ▸ List.mem_cons_self)
        refine iff_of_false ?_ fun hpw => hk (hpw.1 b hb.1 hb.2)
        have hlt : i+1 < b.seq := by
          have hpos := List.mem_map_of_mem (f := SealedEvent.seq) hb.1
          rw [seq_of_linked hrest, List.mem_range'_1] at hpos
          omega
        simp only [firstDivergence, if_pos (Nat.ne_of_gt hlt)]
        exact Option.some_ne_none _

end Chain

section Delete

variable {nfc : GoText.GoString → GoText.GoString} {db : Db} {org : Uuid} {gone : SealedEvent → Bool}
  {es : List SealedEvent}

theorem hasEvent_deleteEvents {e : SealedEvent} (he : e.event.organizationId = org) :
    HasEvent (deleteEvents db org gone) e ↔ HasEvent db e ∧ gone e = false := by
  subst he
  simp only [HasEvent, eventAt, deleteEvents, Store.filterRows_row, Option.map_eq_some_iff,
    Option.filter_eq_some_iff, keepRow, decide_true, Bool.true_and, Bool.not_eq_true']
  constructor
  · rintro ⟨v, ⟨hv, hg⟩, hve⟩
    rw [hve] at hg
    exact ⟨⟨v, hv, hve⟩, hg⟩
  · rintro ⟨⟨v, hv, hve⟩, hg⟩
    rw [← hve] at hg
    exact ⟨v, ⟨hv, hg⟩, hve⟩

theorem trail_deleteEvents (ht : Trail db org es) :
    Trail (deleteEvents db org gone) org (es.filter fun e => !gone e) := by
  intro e
  rw [List.mem_filter, ht e]
  constructor
  · rintro ⟨⟨he, ho⟩, hg⟩
    exact ⟨(hasEvent_deleteEvents ho).mpr ⟨he, by simpa using hg⟩, ho⟩
  · rintro ⟨he, ho⟩
    obtain ⟨he, hg⟩ := (hasEvent_deleteEvents ho).mp he
    exact ⟨⟨he, ho⟩, by simpa using hg⟩

theorem row_head_deleteEvents (o : Uuid) :
    (deleteEvents db org gone).row (.head o) = db.row (.head o) :=
  db.filterRows_row_of_keep _ _ fun _ => rfl

theorem seals_deleteEvents : seals (deleteEvents db org gone) org = seals db org := by
  have hrow (k : Key) : sealRow (deleteEvents db org gone) org k = sealRow db org k := by
    cases k with
    | sealed o n =>
      have hn : (deleteEvents db org gone).row (.sealed o n) = db.row (.sealed o n) :=
        db.filterRows_row_of_keep _ _ fun _ => rfl
      simp only [sealRow, hn]
    | _ => rfl
  unfold seals
  rw [funext hrow]
  rfl

end Delete

section Seals

variable {env : Env} {org : Uuid} {verifier : Option SealVerifier}

def Accepts (env : Env) (verifier : Option SealVerifier) : Prop :=
  ∀ verify ∈ verifier, ∀ content signature keyId,
    env.sign content = some (signature, keyId) → verify content signature keyId = .ok true

theorem checkSignature_none {db : Db} {s : SealRow} (hv : Accepts env verifier)
    (hs : SealOk env db org s) : checkSignature org s verifier = none := by
  cases verifier with
  | none => rfl
  | some verify =>
    obtain ⟨content, hcontent, hsign⟩ := hs.signed
    simp only [checkSignature, hcontent, hv verify rfl _ _ _ hsign, ↓reduceIte]

end Seals

/-- The hash a seal looks for is found exactly if the event it closes on is kept. -/
theorem hashIndex_filter {es : List SealedEvent} {e : SealedEvent} (gone : SealedEvent → Bool)
    (hs : es.Pairwise fun a b => a.seq < b.seq) (he : e ∈ es) :
    hashIndex (es.filter fun e => !gone e) e.seq = some e.hash ↔ gone e = false := by
  have hs' : (es.filter fun e => !gone e).Pairwise fun a b => a.seq < b.seq := hs.filter _
  cases hg : gone e with
  | false =>
    refine iff_of_true (hashIndex_of_mem hs' ?_) rfl
    exact List.mem_filter.mpr ⟨he, by rw [hg]; rfl⟩
  | true =>
    refine iff_of_false (fun h => ?_) Bool.true_eq_false.mp
    rw [hashIndex_of_not_mem fun b hb hseq => ?_] at h
    · cases h
    · obtain ⟨hb, hgb⟩ := List.mem_filter.mp hb
      rw [eq_of_seq_eq hs hb he hseq, hg] at hgb
      cases hgb

theorem pairwise_iff_seq {es : List SealedEvent} {r : SealedEvent → SealedEvent → Prop}
    (hs : es.Pairwise fun a b => a.seq < b.seq) :
    es.Pairwise r ↔ ∀ a ∈ es, ∀ b ∈ es, a.seq < b.seq → r a b := by
  induction es with
  | nil => exact iff_of_true List.Pairwise.nil fun a ha => by cases ha
  | cons e es ih =>
    obtain ⟨he, hs⟩ := List.pairwise_cons.mp hs
    rw [List.pairwise_cons, ih hs]
    constructor
    · rintro ⟨hfirst, hrest⟩ a ha b hb hab
      rcases List.mem_cons.mp ha with rfl | ha' <;> rcases List.mem_cons.mp hb with rfl | hb'
      · exact absurd hab (lt_irrefl _)
      · exact hfirst b hb'
      · exact absurd hab (Nat.lt_asymm (he a ha'))
      · exact hrest a ha' b hb' hab
    · intro h
      exact ⟨fun b hb => h e List.mem_cons_self b (List.mem_cons_of_mem e hb) (he b hb),
        fun a ha b hb => h a (List.mem_cons_of_mem e ha) b (List.mem_cons_of_mem e hb)⟩

section Verdict

variable {env : Env} {db : Db} {org : Uuid} {verifier : Option SealVerifier} {h : ChainHead}
  {g : Bytes} {es : List SealedEvent}

theorem sealOk_of_mem (hseals : ∀ org n s, db.row (.sealed org n) = some s → SealOk env db org s.1)
    {s : SealRow} (hs : s ∈ sortedSeals org db) : SealOk env db org s := by
  rw [sortedSeals, List.mem_insertionSort, seals, List.mem_filterMap] at hs
  obtain ⟨k, -, hk⟩ := hs
  cases k with
  | sealed o n =>
    simp only [sealRow] at hk
    split_ifs at hk with ho
    obtain ⟨v, hv, rfl⟩ := Option.map_eq_some_iff.mp hk
    exact ho ▸ hseals o n v hv
  | _ => cases hk

/-- `VerifyOrganization` reports the trail of the organization as intact. -/
def Verified (verifier : Option SealVerifier) (env : Env) (db : Db) (org : Uuid) : Prop :=
  ∃ rep, verifyOrganization verifier org env.nfc db = .ok rep ∧ rep.ok = true

/-- The verdict on a database that shows a part of the trail: the events it does not show follow
every one it does, the seals tile, each closes on an event that is shown, and each row that is shown
hashes to its stored hash. -/
theorem verdict_of_shown {live : Db} (gone : SealedEvent → Bool) (hv : Accepts env verifier)
    (hc : ChainOf env.nfc db org h g es) (ht : Trail live org (es.filter fun e => !gone e))
    (hhead : live.row (.head org) = db.row (.head org)) (hsame : seals live org = seals db org)
    (hclosed : ∀ s ∈ sortedSeals org db, SealOk env db org s)
    (hends : ∀ s ∈ sortedSeals org db, ∃ e ∈ es, e.seq = s.seqEnd ∧ e.hash = s.headHash) :
    ((∃ rep, verifyOrganization verifier org env.nfc live = .ok rep) ↔
        ∀ e ∈ es, gone e = false → e.Shallow) ∧
      (Verified verifier env live org ↔
        ((∀ a ∈ es, ∀ b ∈ es, a.seq < b.seq → gone a = true → gone b = true) ∧
          Tiles 0 (sortedSeals org db) ∧
          ∀ s ∈ sortedSeals org db, ∀ e ∈ es, e.seq = s.seqEnd → gone e = false) ∧
        ∀ e ∈ es, gone e = false → e.Rehashes env.nfc) := by
  have hsorted := pairwise_of_linked hc.linked
  have hread : trailEvents live org = es.filter fun e => !gone e :=
    trailEvents_eq ht (hsorted.filter _)
  have hall (p : SealedEvent → Prop) : (∀ e ∈ es.filter fun e => !gone e, p e) ↔
      ∀ e ∈ es, gone e = false → p e := by
    simp only [List.mem_filter, Bool.not_eq_true', and_imp]
  have hown : ∀ e ∈ es.filter fun e => !gone e, e.hash = linkHash env.nfc e.prevHash e.event :=
    fun e he => hash_of_linked hc.linked e (List.mem_of_mem_filter he)
  have hlen := length_genesisHash hc.genesis
  obtain ⟨hreads, hiff⟩ := verifyOrganization_ok_iff verifier env.nfc
    (readGenesisHash_of_head (hhead.trans hc.head) hc.genesis)
  rw [hread, hall] at hreads
  have hchain : firstDivergence env.nfc g 0 (es.filter fun e => !gone e) = none ↔
      ∀ a ∈ es, ∀ b ∈ es, a.seq < b.seq → gone a = true → gone b = true := by
    rw [firstDivergence_filter _ hlen hc.linked, pairwise_iff_seq hsorted]
    refine forall₂_congr fun a _ => forall₂_congr fun b _ => forall_congr' fun _ => ?_
    cases gone a <;> cases gone b <;> simp
  -- the seals are untouched, and every one of them closed on an event of the trail
  have hseals : (verifySeals verifier org (hashIndex (es.filter fun e => !gone e)) live).ok = true ↔
      Tiles 0 (sortedSeals org db) ∧
        ∀ s ∈ sortedSeals org db, ∀ e ∈ es, e.seq = s.seqEnd → gone e = false := by
    have hs : sortedSeals org live = sortedSeals org db := by
      rw [sortedSeals, hsame, sortedSeals]
    rw [verifySeals, hs, verifySealsFrom_ok_iff fun s hs => checkSignature_none hv (hclosed s hs)]
    refine and_congr_right fun _ => forall₂_congr fun s hs => ?_
    obtain ⟨e, hmem, hseq, hhash⟩ := hends s hs
    rw [← hseq, ← hhash, hashIndex_filter gone hsorted hmem]
    exact ⟨fun hg b hb hbe => eq_of_seq_eq hsorted hb hmem hbe ▸ hg, fun hall => hall e hmem rfl⟩
  refine ⟨hreads, ?_⟩
  rw [Verified, hiff, hread, verifyChain_ok_iff, firstDivergence_map_readBack hlen hown, hchain,
    hseals, hall, hall]
  simp only [SealedEvent.Rehashes]
  constructor
  · rintro ⟨hshallow, ⟨hlast, hhash⟩, hclose⟩
    exact ⟨⟨hlast, hclose⟩, fun e he hg => ⟨hshallow e he hg, hhash e he hg⟩⟩
  · rintro ⟨⟨hlast, hclose⟩, hhash⟩
    exact ⟨fun e he hg => (hhash e he hg).1, ⟨hlast, fun e he hg => (hhash e he hg).2⟩, hclose⟩

theorem ends_of_sealOk (ht : Trail db org es) {s : SealRow} (hs : SealOk env db org s) :
    ∃ e ∈ es, e.seq = s.seqEnd ∧ e.hash = s.headHash := by
  obtain ⟨e, he, ho, hseq, hhash⟩ := hs.ends
  exact ⟨e, (ht e).mpr ⟨he, ho⟩, hseq, hhash⟩

theorem verdict_deleteEvents (gone : SealedEvent → Bool) (hv : Accepts env verifier)
    (hc : ChainOf env.nfc db org h g es) (ht : Trail db org es)
    (hseals : ∀ s ∈ sortedSeals org db, SealOk env db org s) :
    ((∃ rep, verifyOrganization verifier org env.nfc (deleteEvents db org gone) = .ok rep) ↔
        ∀ e ∈ es, gone e = false → e.Shallow) ∧
      (Verified verifier env (deleteEvents db org gone) org ↔
        ((∀ a ∈ es, ∀ b ∈ es, a.seq < b.seq → gone a = true → gone b = true) ∧
          Tiles 0 (sortedSeals org db) ∧
          ∀ s ∈ sortedSeals org db, ∀ e ∈ es, e.seq = s.seqEnd → gone e = false) ∧
        ∀ e ∈ es, gone e = false → e.Rehashes env.nfc) :=
  verdict_of_shown gone hv hc (trail_deleteEvents ht) (row_head_deleteEvents org)
    seals_deleteEvents hseals fun s hs => ends_of_sealOk ht (hseals s hs)

theorem not_evident_iff (gone : SealedEvent → Bool) (hc : ChainOf env.nfc db org h g es)
    (ht : Trail db org es) (hseals : ∀ s ∈ sortedSeals org db, SealOk env db org s) :
    ¬Evident db org gone ↔
      (∀ a ∈ es, ∀ b ∈ es, a.seq < b.seq → gone a = true → gone b = true) ∧
        Tiles 0 (sortedSeals org db) ∧
        ∀ s ∈ sortedSeals org db, ∀ e ∈ es, e.seq = s.seqEnd → gone e = false := by
  have hsorted := pairwise_of_linked hc.linked
  rw [Evident, trailEvents_eq ht hsorted]
  constructor
  · intro hev
    obtain ⟨hlater, hsealed, htiles⟩ := not_or.mp hev |>.imp_right not_or.mp
    refine ⟨fun a ha b hb hab hg => ?_, not_not.mp htiles, fun s hs e he hseq => ?_⟩
    · by_contra hgb
      exact hlater ⟨a, ha, b, hb, hg, by simpa using hgb, hab⟩
    · by_contra hg
      exact hsealed ⟨e, he, s, hs, by simpa using hg, hseq.le⟩
  · rintro ⟨hpre, htile, hends⟩
      (⟨a, ha, b, hb, hg, hgb, hab⟩ | ⟨a, ha, s, hs, hg, hle⟩ | htiles)
    · rw [hpre a ha b hb hab hg] at hgb
      cases hgb
    -- a sealed range closes on an event that is kept, so nothing before it is deleted
    · obtain ⟨b, hb, ho, hseq, -⟩ := (hseals s hs).ends
      have hmem : b ∈ es := (ht b).mpr ⟨hb, ho⟩
      have hgb := hends s hs b hmem hseq
      rcases Nat.lt_or_ge a.seq b.seq with hab | hab
      · rw [hpre a ha b hmem hab hg] at hgb
        cases hgb
      · obtain rfl := eq_of_seq_eq hsorted ha hmem (by omega)
        rw [hg] at hgb
        cases hgb
    · exact htiles htile

end Verdict

section Runs

variable {env : Env} {db : Db} {c : AuditCfg} {es : List (Event Req)}

/-- A deletion in a trail that the append and seal protocols produced is reported exactly if no event
that is kept nests too deep to be read, and the deletion leaves a later event, reaches into a sealed
range or finds seals that do not tile, or an event that is kept has a malformed actor. The head row,
which still counts the deleted events, is not consulted. -/
theorem deletion_reported_iff {verifier : Option SealVerifier} (hv : Accepts env verifier)
    (hnfc : KeepsReplacement env.nfc) (hdb : NoTrail db)
    (hrun : run (exec (auditProgram env)) (Cfg.idle db) es = some c)
    (org : Uuid) (gone : SealedEvent → Bool)
    (hne : ∃ e ∈ trailEvents c.db org, gone e = true)
    (hfree : ∀ e ∈ trailEvents c.db org, e.HashedApart env.nfc) :
    (∃ rep, verifyOrganization verifier org env.nfc (deleteEvents c.db org gone) = .ok rep ∧
      rep.ok = false) ↔
      (∀ e ∈ trailEvents c.db org, gone e = false → e.Shallow) ∧
        (Evident c.db org gone ∨
          ∃ e ∈ trailEvents c.db org, gone e = false ∧ ¬e.event.Readable) := by
  rcases (inv_of_run hdb hrun).base org with ⟨-, ht⟩ | ⟨h, g, trail, hc, ht⟩
  -- without a trail there is nothing to delete
  · obtain ⟨e, he, -⟩ := hne
    rw [trailEvents_eq ht List.Pairwise.nil] at he
    cases he
  have hread : trailEvents c.db org = trail := trailEvents_eq ht (pairwise_of_linked hc.linked)
  rw [hread] at hfree ⊢
  have hseals (s : SealRow) (hs : s ∈ sortedSeals org c.db) : SealOk env c.db org s :=
    sealOk_of_mem (sealInv_of_run hdb hrun).stored hs
  obtain ⟨hreport, hok⟩ := verdict_deleteEvents gone hv hc ht hseals
  rw [← not_evident_iff gone hc ht hseals] at hok
  have hreadable (e : SealedEvent) (he : e ∈ trail) : e.Rehashes env.nfc ↔ e.event.Readable :=
    ⟨readable_of_rehashes hnfc (hfree e he) (hash_of_linked hc.linked e he),
      rehashes_of_readable (hash_of_linked hc.linked e he)⟩
  have hnot : (∃ rep, verifyOrganization verifier org env.nfc (deleteEvents c.db org gone) =
      .ok rep ∧ rep.ok = false) ↔
      (∃ rep, verifyOrganization verifier org env.nfc (deleteEvents c.db org gone) = .ok rep) ∧
        ¬Verified verifier env (deleteEvents c.db org gone) org := by
    rw [Verified]
    cases verifyOrganization verifier org env.nfc (deleteEvents c.db org gone) with
    | error err => simp
    | ok rep => simp
  rw [hnot, hreport, hok]
  apply and_congr_right
  intro _
  rw [not_and_or, not_not, not_forall₂]
  simp only [exists_prop, not_forall]
  refine or_congr_right (exists_congr fun e => and_congr_right fun he => ?_)
  rw [hreadable e he]

end Runs

namespace Sample

def sealedOnce : List (Event Req) :=
  [.start 0 (.append [login 1 7 5000]), .step 0, .step 0, .step 0, .step 0, .step 0,
    .start 0 (.sealOrganization 7 9000), .step 0, .step 0, .step 0, .step 0,
    .start 0 (.append [login 2 7 6000]), .step 0, .step 0, .step 0, .step 0, .step 0]

def appendedOnce : List (Event Req) :=
  [.start 0 (.append [login 1 7 5000]), .step 0, .step 0, .step 0, .step 0, .step 0]

def verify : SealVerifier := fun content signature keyId =>
  .ok (signature = content.take 8 && keyId = "k1")

theorem accepts_verify : Accepts env (some verify) := by
  intro v hv content signature keyId hsign
  obtain rfl := Option.some.inj hv
  obtain ⟨rfl, rfl⟩ := Prod.mk.inj (Option.some.inj hsign)
  simp [verify]

theorem readable_of_plain {db : Db} {org : Uuid}
    (h : (trailEvents db org).all (fun e => e.event.actor.act.isNone) = true) :
    ∀ e ∈ trailEvents db org, e.event.Readable := by
  intro e he act hact
  rw [Option.isNone_iff_eq_none.mp (List.all_eq_true.mp h e he)] at hact
  cases hact

end Sample

/-- Deleting the sealed event is reported. -/
theorem deletion_reported_sealed :
    ∃ c, run (exec (auditProgram Sample.env)) (Cfg.idle Store.empty) Sample.sealedOnce = some c ∧
      ∃ rep, verifyOrganization (some Sample.verify) 7 Sample.env.nfc
        (deleteEvents c.db 7 fun e => e.seq = 1) = .ok rep ∧ rep.ok = false := by
  have hrun : (run (exec (auditProgram Sample.env)) (Cfg.idle Store.empty) Sample.sealedOnce).any
      (fun c => (trailEvents c.db 7).map SealedEvent.seq = [1, 2] &&
        ((sortedSeals 7 c.db).map SealRow.seqEnd = [1] &&
          (trailEvents c.db 7).all fun e => e.event.actor.act.isNone)) = true := by
    decide +kernel
  obtain ⟨c, hc, hdec⟩ := (Option.any_eq_true _ _).mp hrun
  obtain ⟨hseq, hdec⟩ := Bool.and_eq_true_iff.mp hdec
  obtain ⟨hends, hplain⟩ := Bool.and_eq_true_iff.mp hdec
  obtain ⟨a, ha, hseqa⟩ := List.mem_map.mp (of_decide_eq_true hseq ▸ List.mem_cons_self : 1 ∈ _)
  obtain ⟨s, hs, hseqs⟩ := List.mem_map.mp (of_decide_eq_true hends ▸ List.mem_cons_self : 1 ∈ _)
  have hreadable := Sample.readable_of_plain hplain
  have hgone : decide (a.seq = 1) = true := decide_eq_true hseqa
  refine ⟨c, hc, (deletion_reported_iff Sample.accepts_verify Sample.keepsReplacement_id
    Sample.noTrail_empty hc 7 _ ⟨a, ha, hgone⟩ fun e he =>
      hashedApart_of_readable (hreadable e he)).mpr ⟨fun e he _ act hact => ?_, ?_⟩⟩
  · exact (hreadable e he act hact).2
  · refine Or.inl (Or.inr (Or.inl ⟨a, ha, s, hs, hgone, ?_⟩))
    rw [hseqa, hseqs]

/-- Deleting the only event of an unsealed trail leaves a trail that verifies. -/
theorem unsealed_event_deleted_unnoticed :
    ∃ c, run (exec (auditProgram Sample.env)) (Cfg.idle Store.empty) Sample.appendedOnce = some c ∧
      (trailEvents c.db 7).map SealedEvent.seq = [1] ∧
      ∃ rep, verifyOrganization (some Sample.verify) 7 Sample.env.nfc
        (deleteEvents c.db 7 fun _ => true) = .ok rep ∧ rep.ok = true := by
  have hrun : (run (exec (auditProgram Sample.env)) (Cfg.idle Store.empty) Sample.appendedOnce).any
      (fun c => (trailEvents c.db 7).map SealedEvent.seq = [1] &&
        (verifyOrganization (some Sample.verify) 7 Sample.env.nfc
          (deleteEvents c.db 7 fun _ => true)).toOption.any VerifyReport.ok) = true := by
    decide +kernel
  obtain ⟨c, hc, hdec⟩ := (Option.any_eq_true _ _).mp hrun
  obtain ⟨hseq, hok⟩ := Bool.and_eq_true_iff.mp hdec
  obtain ⟨rep, hrep, hrepok⟩ := (Option.any_eq_true _ _).mp hok
  refine ⟨c, hc, of_decide_eq_true hseq, rep, ?_, hrepok⟩
  cases hv : verifyOrganization (some Sample.verify) 7 Sample.env.nfc
      (deleteEvents c.db 7 fun _ => true) with
  | error err =>
    rw [hv] at hrep
    cases hrep
  | ok r =>
    rw [hv] at hrep
    exact congrArg Except.ok (Option.some.inj hrep)

end ArchGuard.Audit
