import ArchGuard.AuditSeals
import ArchGuard.AuditVerifier

/-! The committed trail of every organization, after any run of the audit transactions. -/
namespace ArchGuard.Audit
open ReadCommitted TransitionRun

/-- A database in which no chain has been started; other tables are arbitrary. -/
structure NoTrail (db : Db) : Prop where
  head : ∀ org, db.row (.head org) = none
  event : ∀ org t n, db.row (.event org t n) = none
  noSeal : ∀ org n, db.row (.sealed org n) = none

section Runs

variable {nfc : GoText.GoString → GoText.GoString} {env : Env} {db : Db} {org : Uuid}

theorem chainOk_noTrail (h : NoTrail db) (org : Uuid) : ChainOk nfc db org := by
  refine Or.inl ⟨h.head org, fun e => ?_⟩
  simp only [List.not_mem_nil, HasEvent, eventAt, h.event, Option.map_none, reduceCtorEq, false_and]

theorem inv_idle (h : NoTrail db) : Inv nfc (Cfg.idle db : AuditCfg) where
  live := ownersLive_idle db
  base := chainOk_noTrail h
  guard _ _ _ _ _ hl := by cases hl
  pcs _ _ hl := by cases hl
  heads _ _ _ hl := by cases hl

theorem sealInv_idle (h : NoTrail db) : SealInv env (Cfg.idle db : AuditCfg) where
  fresh _ _ _ _ _ hl := by cases hl
  stored org n s hs := by
    change db.row _ = _ at hs
    rw [h.noSeal] at hs
    cases hs
  pending _ _ _ _ hl := by cases hl
  pcs _ _ hl := by cases hl

theorem inv_of_run {c : AuditCfg} {es : List (Event Req)} (hdb : NoTrail db)
    (h : run (exec (auditProgram env)) (Cfg.idle db) es = some c) : Inv env.nfc c :=
  run_always (fun _ _ _ hc he => hc.step he) (inv_idle hdb) h

theorem sealInv_of_run {c : AuditCfg} {es : List (Event Req)} (hdb : NoTrail db)
    (h : run (exec (auditProgram env)) (Cfg.idle db) es = some c) : SealInv env c :=
  (run_always (I := fun c => Inv env.nfc c ∧ SealInv env c)
    (fun _ _ _ hc he => ⟨hc.1.step he, hc.2.step hc.1 he⟩) ⟨inv_idle hdb, sealInv_idle hdb⟩ h).2

theorem SealInv.grows_db {c c' : AuditCfg} {e : Event Req} (hc : SealInv env c)
    (h : exec (auditProgram env) c e = some c') : Grows c.db c'.db := by
  apply grows_of_rows
  intro org t n v hv
  rcases row_of_exec h with heq | ⟨i, l, m, -, -, -, rfl⟩
  · rw [heq]
    exact hv
  · refine (Cfg.commit_row_of_not_own fun r hr => ?_).trans hv
    rw [hc.fresh org t n i r hr] at hv
    cases hv

theorem grows_of_run {c c' : AuditCfg} {es : List (Event Req)} (hi : Inv env.nfc c)
    (hc : SealInv env c) (h : run (exec (auditProgram env)) c es = some c') :
    Grows c.db c'.db := by
  have hkept : (Inv env.nfc c' ∧ SealInv env c') ∧ Grows c.db c'.db := by
    refine run_always (I := fun d => (Inv env.nfc d ∧ SealInv env d) ∧ Grows c.db d.db) ?_
      ⟨⟨hi, hc⟩, fun _ he => he⟩ h
    rintro d e d' ⟨hd, hgrows⟩ he
    exact ⟨⟨hd.1.step he, hd.2.step hd.1 he⟩, fun x hx => hd.2.grows_db he x (hgrows x hx)⟩
  exact hkept.2

/-- The stored events run from the genesis to the head without gap. -/
structure Intact (db : Db) (org : Uuid) (h : ChainHead) (g : Bytes) : Prop where
  head : db.row (.head org) = some h
  genesis : readGenesisHash db org = .ok (some g)
  seq : (trailEvents db org).map SealedEvent.seq = List.range' 1 h.lastSeq
  links : (trailEvents db org).map SealedEvent.prevHash ++ [h.headHash] =
    g :: (trailEvents db org).map SealedEvent.hash

/-- Each organization has no trail at all, or one that is numbered from 1 to `last_seq` and linked
from its genesis to its head. -/
def TrailsIntact (db : Db) : Prop :=
  ∀ org, (db.row (.head org) = none ∧ trailEvents db org = []) ∨ ∃ h g, Intact db org h g

/-- Every trail can be read, and `VerifyChain` accepts what is read. -/
def TrailsAccepted (nfc : GoText.GoString → GoText.GoString) (db : Db) : Prop :=
  ∀ org g, readGenesisHash db org = .ok (some g) →
    ∃ events, readSealedEvents db org = .ok events ∧ (verifyChain nfc g events).ok = true

theorem links_of_linked {g : Bytes} {i : ℕ} {es : List SealedEvent} (h : Linked nfc g i es) :
    es.map SealedEvent.prevHash ++ [headHash g es] = g :: es.map SealedEvent.hash := by
  induction es generalizing g i with
  | nil => rfl
  | cons e es ih =>
    obtain ⟨-, hprev, -, hrest⟩ := h
    rw [List.map_cons, List.map_cons, List.cons_append, headHash, ih hrest, hprev]

theorem ChainOf.intact {h : ChainHead} {g : Bytes} {es : List SealedEvent}
    (hc : ChainOf nfc db org h g es) (ht : Trail db org es) : Intact db org h g := by
  have hread : trailEvents db org = es := trailEvents_eq ht (pairwise_of_linked hc.linked)
  refine ⟨hc.head, ?_, ?_, ?_⟩
  · exact readGenesisHash_of_head hc.head hc.genesis
  · rw [hread, seq_of_linked hc.linked, hc.lastSeq]
  · rw [hread, ← hc.headHash, links_of_linked hc.linked]

theorem Inv.trailsIntact {c : AuditCfg} (hc : Inv nfc c) : TrailsIntact c.db := by
  intro org
  rcases hc.base org with ⟨hn, ht⟩ | ⟨h, g, es, hc, ht⟩
  · exact Or.inl ⟨hn, trailEvents_eq ht List.Pairwise.nil⟩
  · exact Or.inr ⟨h, g, hc.intact ht⟩

theorem Inv.hash_eq {c : AuditCfg} (hc : Inv nfc c) {e : SealedEvent} (he : HasEvent c.db e) :
    e.hash = linkHash nfc e.prevHash e.event := by
  rcases hc.base e.event.organizationId with ⟨-, ht⟩ | ⟨h, g, es, hc, ht⟩
  · exact absurd ((ht e).mpr ⟨he, rfl⟩) List.not_mem_nil
  · exact hash_of_linked hc.linked e ((ht e).mpr ⟨he, rfl⟩)

theorem ChainOf.accepted_iff {h : ChainHead} {g : Bytes} {es : List SealedEvent}
    (hc : ChainOf nfc db org h g es) (ht : Trail db org es) :
    (∃ events, readSealedEvents db org = .ok events ∧ (verifyChain nfc g events).ok = true) ↔
      ∀ e ∈ trailEvents db org, e.Rehashes nfc := by
  have hread : trailEvents db org = es := trailEvents_eq ht (pairwise_of_linked hc.linked)
  have hp := length_genesisHash hc.genesis
  have hwalk : (verifyChain nfc g (es.map SealedEvent.readBack)).ok = true ↔
      ∀ e ∈ es, linkHash nfc e.prevHash e.readBack.event = e.hash := by
    rw [verifyChain_ok_iff, firstDivergence_map_readBack hp (hash_of_linked hc.linked),
      and_iff_right (firstDivergence_of_linked hp hc.linked)]
  simp only [readSealedEvents_iff, hread]
  constructor
  · rintro ⟨_, ⟨hshallow, rfl⟩, hok⟩
    exact fun e he => ⟨hshallow e he, hwalk.mp hok e he⟩
  · intro hall
    exact ⟨_, ⟨fun e he => (hall e he).1, rfl⟩, hwalk.mpr fun e he => (hall e he).2⟩

/-- In a state that transactions reach, the trails are accepted exactly if each row that is stored
hashes to its stored hash. -/
theorem Inv.trailsAccepted_iff {c : AuditCfg} (hc : Inv nfc c) :
    TrailsAccepted nfc c.db ↔ ∀ e, HasEvent c.db e → e.Rehashes nfc := by
  constructor
  · intro haccepted e he
    rcases hc.base e.event.organizationId with ⟨-, ht⟩ | ⟨h, g, es, hc, ht⟩
    · exact absurd ((ht e).mpr ⟨he, rfl⟩) List.not_mem_nil
    · have hok := haccepted _ g (readGenesisHash_of_head hc.head hc.genesis)
      exact (hc.accepted_iff ht).mp hok e (mem_trailEvents.mpr ⟨he, rfl⟩)
  · intro hall org g hg
    rcases hc.base org with ⟨hn, -⟩ | ⟨h, g', es, hc, ht⟩
    · rw [readGenesisHash, hn] at hg
      cases hg
    · rw [readGenesisHash_of_head hc.head hc.genesis] at hg
      obtain rfl : g' = g := Option.some.inj (Except.ok.inj hg)
      exact (hc.accepted_iff ht).mpr fun e he => hall e (mem_trailEvents.mp he).1

end Runs

section Readable

variable {env : Env} {db : Db} {c c' : AuditCfg} {e : Event Req} {es : List (Event Req)}

/-- The columns give the actors of every stored event back. -/
def AllReadable (db : Db) : Prop := ∀ e, HasEvent db e → e.event.Readable

/-- No commit adds an event whose actors its columns do not give back. -/
def CommitsReadable (c : AuditCfg) (e : Event Req) : Prop :=
  ∀ i next org t n (s : Row (.event org t n)), e = .step i → c.proc i = some (.commit next) →
    c.lock (.event org t n) = some (i, some s) → s.1.1.event.Readable

theorem eq_commit_of_next {p : Pc} {n : Option Pc} (h : (auditProgram env).next p = .commit n) :
    p = .commit n := by
  cases p with
  | commit m =>
    cases h
    rfl
  | _ => cases h

theorem hasEvent_of_row {org : Uuid} {t : ℤ} {n : ℕ} {s : Row (.event org t n)}
    (h : db.row (.event org t n) = some s) : HasEvent db s.1.1 := by
  obtain ⟨s, rfl, rfl, rfl⟩ := s
  rw [HasEvent, eventAt, h]
  rfl

theorem CommitsReadable.readable (hok : CommitsReadable c e)
    (h : exec (auditProgram env) c e = some c') {x : SealedEvent} (hx : HasEvent c'.db x) :
    HasEvent c.db x ∨ x.event.Readable := by
  rcases row_of_exec h with hrow | ⟨i, l, n, rfl, hp, hn, rfl⟩
  · rw [HasEvent, eventAt, hrow] at hx
    exact Or.inl hx
  obtain rfl := eq_commit_of_next hn
  obtain ⟨v, hv, hvx⟩ := Option.map_eq_some_iff.mp hx
  rcases c.viewRow_cases i (rowKey x) with ⟨r, hr, he⟩ | ⟨-, he⟩
  · have hrv : r = some v := he.symm.trans hv
    rw [hrv] at hr
    exact Or.inr (hvx ▸ hok i n _ _ _ v rfl hp hr)
  · exact Or.inl (Option.map_eq_some_iff.mpr ⟨v, he.symm.trans hv, hvx⟩)

theorem commitsReadable_iff (hc : AllReadable c.db) (h : exec (auditProgram env) c e = some c') :
    AllReadable c'.db ↔ CommitsReadable c e := by
  constructor
  · rintro hc' i next org t n s rfl hp hl
    rcases exec_cases h with ⟨j, r, he, -⟩ | ⟨j, he, -⟩ | ⟨j, p, he, hp', hact⟩ <;> cases he
    rw [hp] at hp'
    obtain rfl := Option.some.inj hp'
    obtain rfl := act_commit hact
    exact hc' _ (hasEvent_of_row (Cfg.viewRow_own hl))
  · intro hok x hx
    rcases hok.readable h hx with hold | hnew
    · exact hc x hold
    · exact hnew

theorem rehashes_run (hi : Inv env.nfc c) (hc : ∀ x, HasEvent c.db x → x.Rehashes env.nfc)
    (hok : Along (exec (auditProgram env)) CommitsReadable c es)
    (hrun : run (exec (auditProgram env)) c es = some c') :
    ∀ x, HasEvent c'.db x → x.Rehashes env.nfc := by
  have hkept : Inv env.nfc c' ∧ ∀ x, HasEvent c'.db x → x.Rehashes env.nfc := by
    refine run_invariant (I := fun d => Inv env.nfc d ∧ ∀ x, HasEvent d.db x → x.Rehashes env.nfc)
      ?_ ⟨hi, hc⟩ hok hrun
    rintro d e d' ⟨hd, hold⟩ hin he
    refine ⟨hd.step he, fun x hx => ?_⟩
    rcases hin.readable he hx with hx' | hread
    · exact hold x hx'
    · exact rehashes_of_readable ((hd.step he).hash_eq hx) hread
  exact hkept.2

theorem allReadable_iff_along (hdb : NoTrail db)
    (hrun : run (exec (auditProgram env)) (Cfg.idle db) es = some c) :
    (∀ pre post s, es = pre ++ post → run (exec (auditProgram env)) (Cfg.idle db) pre = some s →
        AllReadable s.db) ↔
      Along (exec (auditProgram env)) CommitsReadable (Cfg.idle db) es := by
  refine stays_iff_along_of_run (J := fun _ => True) (A := fun _ => True)
    (fun _ _ _ _ _ _ _ => trivial) (fun s e s' _ hs he => commitsReadable_iff hs he)
    (fun _ _ => trivial) trivial (fun x hx => ?_) hrun
  obtain ⟨v, hv, -⟩ := Option.map_eq_some_iff.mp hx
  change db.row _ = _ at hv
  rw [hdb.event] at hv
  cases hv

/-- In every state that interleaved, aborted and killed transactions reach, each organization has no
trail at all, or one that is numbered from 1 to `last_seq` and linked from its genesis to its head.
`VerifyChain` accepts the trails of all these states if every commit brings readable events, and,
where the hash does not collide, only then. -/
theorem committed_trail_intact_iff (hdb : NoTrail db)
    (hrun : run (exec (auditProgram env)) (Cfg.idle db) es = some c) :
    (∀ pre post s, es = pre ++ post → run (exec (auditProgram env)) (Cfg.idle db) pre = some s →
      TrailsIntact s.db) ∧
    (Along (exec (auditProgram env)) CommitsReadable (Cfg.idle db) es →
      ∀ pre post s, es = pre ++ post → run (exec (auditProgram env)) (Cfg.idle db) pre = some s →
        TrailsAccepted env.nfc s.db) ∧
    (KeepsReplacement env.nfc →
      (∀ org, ∀ e ∈ trailEvents c.db org, e.HashedApart env.nfc) →
      (∀ pre post s, es = pre ++ post → run (exec (auditProgram env)) (Cfg.idle db) pre = some s →
        TrailsAccepted env.nfc s.db) →
      Along (exec (auditProgram env)) CommitsReadable (Cfg.idle db) es) := by
  refine ⟨fun pre post s _ hs => (inv_of_run hdb hs).trailsIntact, fun hok => ?_,
    fun hnfc hfree haccepted => ?_⟩
  · intro pre post s he hs
    have hi := inv_of_run hdb hs
    rw [hi.trailsAccepted_iff]
    intro x hx
    exact rehashes_of_readable (hi.hash_eq hx)
      ((allReadable_iff_along hdb hrun).mpr hok pre post s he hs x hx)
  · rw [← allReadable_iff_along hdb hrun]
    intro pre post s he hs x hx
    have hi := inv_of_run hdb hs
    have hrest : run (exec (auditProgram env)) s post = some c := by
      rw [← hrun, he, run_append_eq hs]
    have hlast : HasEvent c.db x := grows_of_run hi (sealInv_of_run hdb hs) hrest x hx
    exact readable_of_rehashes hnfc (hfree _ x (mem_trailEvents.mpr ⟨hlast, rfl⟩)) (hi.hash_eq hx)
      (hi.trailsAccepted_iff.mp (haccepted pre post s he hs) x hx)

end Readable

namespace Sample

def env : Env := ⟨id, fun content => some (content.take 8, "k1")⟩

def nonce : Nonce := ⟨List.replicate 32 7, rfl⟩

def loginInput (org : Uuid) : AuditEventInput :=
  ⟨org, "auth.login", .mk "subject" none none none, .allowed, ⟨"", "", ""⟩, "",
    ⟨"", "", "", none, "", ""⟩⟩

def login (eventId : Uuid) (org : Uuid) (now : Time) : AppendItem :=
  ⟨loginInput org, now, eventId, nonce⟩

/-- Two transactions append to organization 7; a third is killed while it holds the head. -/
def interleaved : List (Event Req) :=
  [.start 0 (.append [login 1 7 5000, login 2 8 5000]), .start 1 (.append [login 3 7 6000]),
    .start 2 (.append [login 4 7 7000]), .step 0, .step 0, .step 0, .step 0, .step 0, .step 0,
    .step 0, .step 0, .step 0, .step 2, .step 2, .step 2, .kill 2, .step 1, .step 1, .step 1,
    .step 1, .step 1]

/-- The rows that a transaction holds have no actor behind the acting subject. -/
def commitsPlain (c : AuditCfg) : Event Req → Bool
  | .step _ => c.db.keys.all fun
    | .event org t n =>
      match c.lock (.event org t n) with
      | some (_, some s) => s.1.1.event.actor.act.isNone
      | _ => true
    | _ => true
  | _ => true

theorem commitsReadable_of_plain (c : AuditCfg) (e : Event Req) (h : commitsPlain c e = true) :
    CommitsReadable c e := by
  rintro _ next org t n s rfl - hl act hact
  have hkey := List.all_eq_true.mp h _ (c.locked_mem _ _ _ hl)
  simp only [hl, Option.isNone_iff_eq_none] at hkey
  rw [hkey] at hact
  cases hact

theorem noTrail_empty : NoTrail Store.empty := ⟨fun _ => rfl, fun _ _ _ => rfl, fun _ _ => rfl⟩

/-- The action on behalf of another, by a subject with a malformed byte. -/
def misread : List (Event Req) :=
  .start 0 (.append [⟨delegated [0xff], 1500, 1, nonce⟩]) :: List.replicate 5 (.step 0)

/-- What the row of an event reads back as hashes to something else. -/
def hashesApart (e : SealedEvent) : Bool :=
  Sha256.sha256 (e.prevHash ++ encodedBytes id e.readBack.event) ≠
    Sha256.sha256 (e.prevHash ++ encodedBytes id e.event)

end Sample

theorem committed_trail_intact_interleaved :
    ∃ c, run (exec (auditProgram Sample.env)) (Cfg.idle Store.empty) Sample.interleaved = some c ∧
      (trailEvents c.db 7).map SealedEvent.seq = [1, 2] ∧ TrailsIntact c.db ∧
      TrailsAccepted Sample.env.nfc c.db := by
  have hrun : (run (exec (auditProgram Sample.env)) (Cfg.idle Store.empty) Sample.interleaved).any
      (fun c => (trailEvents c.db 7).map SealedEvent.seq = [1, 2]) = true := by
    decide +kernel
  have hplain : Along (exec (auditProgram Sample.env)) CommitsReadable (Cfg.idle Store.empty)
      Sample.interleaved := along_of_check Sample.commitsReadable_of_plain (by decide +kernel)
  obtain ⟨c, hc, hseq⟩ := (Option.any_eq_true _ _).mp hrun
  obtain ⟨hintact, haccepted, -⟩ := committed_trail_intact_iff Sample.noTrail_empty hc
  have hes : Sample.interleaved = Sample.interleaved ++ [] := (List.append_nil _).symm
  exact ⟨c, hc, of_decide_eq_true hseq, hintact _ [] c hes hc, haccepted hplain _ [] c hes hc⟩

/-- The row of a malformed subject behind the acting one is committed, linked and numbered, and
`VerifyChain` does not accept it. -/
theorem malformed_subject_not_accepted :
    ∃ c, run (exec (auditProgram Sample.env)) (Cfg.idle Store.empty) Sample.misread = some c ∧
      ¬TrailsAccepted Sample.env.nfc c.db := by
  have hrun : (run (exec (auditProgram Sample.env)) (Cfg.idle Store.empty) Sample.misread).any
      (fun c => (trailEvents c.db 2).any Sample.hashesApart) = true := by
    decide +kernel
  obtain ⟨c, hc, hany⟩ := (Option.any_eq_true _ _).mp hrun
  refine ⟨c, hc, fun haccepted => ?_⟩
  obtain ⟨e, he, hapart⟩ := List.any_eq_true.mp hany
  have hinv := inv_of_run Sample.noTrail_empty hc
  have hevent : HasEvent c.db e := (mem_trailEvents.mp he).1
  obtain ⟨-, hhash⟩ := hinv.trailsAccepted_iff.mp haccepted e hevent
  rw [hinv.hash_eq hevent, linkHash, linkHash, canonical_eq_encodedBytes,
    canonical_eq_encodedBytes] at hhash
  exact of_decide_eq_true hapart hhash

end ArchGuard.Audit
