import ArchGuard.AuditInvariant
import ArchGuard.AuditReadBack

/-! Verification of an organization's stored trail: the chain, then the seals. -/
namespace ArchGuard.Audit
open ReadCommitted

def eventRow (db : Db) (org : Uuid) : Key → Option StoredEvent
  | .event o t n => if o = org then (db.row (.event o t n)).map Subtype.val else none
  | _ => none

/-- The organization's rows, ordered by `seq`. -/
def eventRows (db : Db) (org : Uuid) : List StoredEvent :=
  (db.keys.filterMap (eventRow db org)).insertionSort fun a b => a.1.seq ≤ b.1.seq

def trailEvents (db : Db) (org : Uuid) : List SealedEvent := (eventRows db org).map Subtype.val

def readSealedEvents (db : Db) (org : Uuid) : Except ScanError (List SealedEvent) :=
  (eventRows db org).mapM fun s => scanSealedEvent s.row org

def readGenesisHash (db : Db) (org : Uuid) : Except AuditError (Option Bytes) :=
  match db.row (.head org) with
  | none => .ok none
  | some head => (genesisHash org head.genesisNonce).map some

/-- Why a verification ends without a report. -/
inductive VerifyError
  | genesis (err : AuditError)
  | events (err : ScanError)
  deriving DecidableEq, Repr

def VerifyError.text : VerifyError → String
  | .genesis err => err.text
  | .events err => "audit: leitura de eventos para verificação falhou: " ++ err.text

/-- `Verify` on content, signature and key id. -/
abbrev SealVerifier := Bytes → Bytes → String → Except String Bool

def failSeal (seqEnd : ℕ) (detail : String) : VerifyReport :=
  { ok := false, firstDivergence := seqEnd, kind := .sealInvalid, detail := detail }

def checkSignature (org : Uuid) (s : SealRow) : Option SealVerifier → Option VerifyReport
  | none => none
  | some verify =>
    match sealContent org s.seqStart s.seqEnd s.headHash s.sealedAt.unixMicro with
    | .error err => some (failSeal s.seqEnd ("conteúdo do selo inválido: " ++ err.text))
    | .ok content =>
      match verify content s.signature s.keyId with
      | .error err => some (failSeal s.seqEnd ("verificação da assinatura falhou: " ++ err))
      | .ok valid => if valid then none else some (failSeal s.seqEnd "assinatura do selo inválida")

variable (verifier : Option SealVerifier) (org : Uuid) (hashBySeq : ℕ → Option Bytes)

/-- What is wrong with a seal that follows the range ending at `prevEnd`, if anything is. -/
def checkSeal (prevEnd : ℕ) (s : SealRow) : Option VerifyReport :=
  if s.seqStart ≠ prevEnd+1 then some (failSeal s.seqEnd
    ("intervalo de selos não contíguo: esperado início " ++ toString (prevEnd+1) ++
      ", veio " ++ toString s.seqStart))
  else if hashBySeq s.seqEnd ≠ some s.headHash then some (failSeal s.seqEnd
    ("head_hash do selo não corresponde ao evento em seq " ++ toString s.seqEnd))
  else checkSignature org s verifier

def verifySealsFrom : (prevEnd checked : ℕ) → List SealRow → VerifyReport
  | _, checked, [] => { ok := true, sealsChecked := checked }
  | prevEnd, checked, s :: rest =>
    match checkSeal verifier org hashBySeq prevEnd s with
    | some report => report
    | none => verifySealsFrom s.seqEnd (checked+1) rest

/-- The seals, ordered by `seq_start`. -/
def sortedSeals (db : Db) : List SealRow :=
  (seals db org).insertionSort fun a b => a.seqStart ≤ b.seqStart

def verifySeals (db : Db) : VerifyReport :=
  verifySealsFrom verifier org hashBySeq 0 0 (sortedSeals org db)

/-- Each seal starts where the one before it ends. -/
def Tiles : (prevEnd : ℕ) → List SealRow → Prop
  | _, [] => True
  | prevEnd, s :: rest => s.seqStart = prevEnd+1 ∧ Tiles s.seqEnd rest

instance decidableTiles : (prevEnd : ℕ) → (rows : List SealRow) → Decidable (Tiles prevEnd rows)
  | _, [] => isTrue trivial
  | prevEnd, s :: rest =>
    have := decidableTiles s.seqEnd rest
    inferInstanceAs (Decidable (s.seqStart = prevEnd+1 ∧ Tiles s.seqEnd rest))

/-- The map from `seq` to hash; a later event overwrites an earlier one. -/
def hashIndex (events : List SealedEvent) (seq : ℕ) : Option Bytes :=
  (events.reverse.find? fun e => e.seq = seq).map SealedEvent.hash

variable (nfc : GoText.GoString → GoText.GoString)

def verifyOrganization (db : Db) : Except VerifyError VerifyReport :=
  match readGenesisHash db org with
  | .error err => .error (.genesis err)
  -- an organization without a head row has an empty trail
  | .ok none => .ok { ok := true }
  | .ok (some genesis) =>
    match readSealedEvents db org with
    | .error err => .error (.events err)
    | .ok events =>
      let rep := verifyChain nfc genesis events
      if !rep.ok then .ok rep
      else
        let sealRep := verifySeals verifier org (hashIndex events) db
        if !sealRep.ok then .ok { sealRep with eventsChecked := rep.eventsChecked }
        else .ok { rep with
          sealsChecked := sealRep.sealsChecked
          sealSignaturesChecked := verifier.isSome }

section Read

variable {nfc org} {db : Db} {es : List SealedEvent}

theorem eventRow_eq_some {k : Key} {s : StoredEvent} :
    eventRow db org k = some s ↔ k = .event org s.1.event.occurredAt.unixMicro s.1.seq ∧
      HasEvent db s.1 ∧ s.1.event.organizationId = org := by
  cases k with
  | event o t n =>
    simp only [eventRow, Key.event.injEq]
    constructor
    · intro h
      split_ifs at h with ho
      obtain ⟨v, hv, rfl⟩ := Option.map_eq_some_iff.mp h
      obtain ⟨s, rfl, rfl, rfl⟩ := v
      refine ⟨⟨ho, rfl, rfl⟩, ?_, ho⟩
      rw [HasEvent, eventAt, hv]
      rfl
    · rintro ⟨⟨rfl, rfl, rfl⟩, he, rfl⟩
      obtain ⟨v, hv, hve⟩ := Option.map_eq_some_iff.mp he
      rw [if_pos rfl, hv, Option.map_some, Subtype.ext hve]
  | _ => simp [eventRow]

theorem mem_eventRows {s : StoredEvent} :
    s ∈ eventRows db org ↔ HasEvent db s.1 ∧ s.1.event.organizationId = org := by
  rw [eventRows, List.mem_insertionSort, List.mem_filterMap]
  simp only [eventRow_eq_some]
  refine ⟨fun ⟨k, _, _, h⟩ => h, fun h => ⟨_, ?_, rfl, h⟩⟩
  obtain ⟨h, rfl⟩ := h
  obtain ⟨v, hv, -⟩ := Option.map_eq_some_iff.mp h
  exact db.covers _ v hv

theorem mem_trailEvents {e : SealedEvent} :
    e ∈ trailEvents db org ↔ HasEvent db e ∧ e.event.organizationId = org := by
  rw [trailEvents, List.mem_map]
  constructor
  · rintro ⟨s, hs, rfl⟩
    exact mem_eventRows.mp hs
  · intro h
    obtain ⟨v, -, hv⟩ := Option.map_eq_some_iff.mp h.1
    refine ⟨v.1, mem_eventRows.mpr ?_, hv⟩
    rw [hv]
    exact h

theorem nodup_trailEvents : (trailEvents db org).Nodup := by
  apply List.Nodup.map Subtype.val_injective
  refine (List.perm_insertionSort _ _).nodup_iff.mpr (db.nodup.filterMap ?_)
  intro k k' e hk hk'
  rw [(eventRow_eq_some.mp hk).1, (eventRow_eq_some.mp hk').1]

theorem sorted_trailEvents :
    (trailEvents db org).Pairwise fun a b => a.seq ≤ b.seq := by
  have : Std.Total fun a b : StoredEvent => a.1.seq ≤ b.1.seq :=
    ⟨fun a b => Nat.le_total a.1.seq b.1.seq⟩
  have : IsTrans StoredEvent fun a b => a.1.seq ≤ b.1.seq := ⟨fun _ _ _ => Nat.le_trans⟩
  exact List.pairwise_map.mpr (List.pairwise_insertionSort _ _)

/-- The rows are read as what their columns give back, if none nests too deep. -/
theorem readSealedEvents_iff {events : List SealedEvent} :
    readSealedEvents db org = .ok events ↔ (∀ e ∈ trailEvents db org, e.Shallow) ∧
      events = (trailEvents db org).map SealedEvent.readBack := by
  rw [readSealedEvents, mapM_scanSealedEvent_iff fun s hs => (mem_eventRows.mp hs).2, trailEvents,
    List.forall_mem_map]

theorem eq_of_seq_eq {a b : SealedEvent} (hs : es.Pairwise fun a b => a.seq < b.seq) (ha : a ∈ es)
    (hb : b ∈ es) (h : a.seq = b.seq) : a = b := by
  have hnodup : (es.map SealedEvent.seq).Nodup :=
    List.pairwise_map.mpr (hs.imp fun h => Nat.ne_of_lt h)
  exact List.inj_on_of_nodup_map hnodup ha hb h

theorem trailEvents_eq (ht : Trail db org es) (hs : es.Pairwise fun a b => a.seq < b.seq) :
    trailEvents db org = es := by
  have hperm : (trailEvents db org).Perm es := by
    refine (List.perm_ext_iff_of_nodup nodup_trailEvents ?_).mpr fun e => ?_
    · exact hs.imp fun {a b} hab he => absurd (congrArg SealedEvent.seq he) (Nat.ne_of_lt hab)
    · rw [mem_trailEvents, ht e]
  -- two sorted lists of the same events, in which no number occurs twice, are equal
  refine List.Perm.eq_of_pairwise (fun a b ha hb hab hba => ?_) sorted_trailEvents
    (hs.imp le_of_lt) hperm
  exact eq_of_seq_eq hs (hperm.mem_iff.mp ha) hb (Nat.le_antisymm hab hba)

theorem pairwise_of_linked {g : Bytes} {i : ℕ} (h : Linked nfc g i es) :
    es.Pairwise fun a b => a.seq < b.seq := by
  have hseq := seq_of_linked h
  rw [← List.pairwise_map (R := fun a b => a < b), hseq]
  exact List.pairwise_lt_range'

theorem readGenesisHash_of_head {h : ChainHead} {g : Bytes} (hh : db.row (.head org) = some h)
    (hg : genesisHash org h.genesisNonce = .ok g) : readGenesisHash db org = .ok (some g) := by
  simp only [readGenesisHash, hh, hg]
  rfl

@[simp] theorem hashIndex_map_readBack (es : List SealedEvent) :
    hashIndex (es.map SealedEvent.readBack) = hashIndex es := by
  funext n
  rw [hashIndex, hashIndex, ← List.map_reverse, List.find?_map, Option.map_map]
  rfl

/-- A verification makes a report if each row can be read, and reports a trail as intact if the walk
over the rows and the check of the seals find nothing. -/
theorem verifyOrganization_ok_iff (verifier : Option SealVerifier)
    (nfc : GoText.GoString → GoText.GoString) {g : Bytes}
    (hg : readGenesisHash db org = .ok (some g)) :
    ((∃ rep, verifyOrganization verifier org nfc db = .ok rep) ↔
        ∀ e ∈ trailEvents db org, e.Shallow) ∧
      ((∃ rep, verifyOrganization verifier org nfc db = .ok rep ∧ rep.ok = true) ↔
        (∀ e ∈ trailEvents db org, e.Shallow) ∧
          (verifyChain nfc g ((trailEvents db org).map SealedEvent.readBack)).ok = true ∧
          (verifySeals verifier org (hashIndex (trailEvents db org)) db).ok = true) := by
  unfold verifyOrganization
  rw [hg]
  dsimp only
  cases hread : readSealedEvents db org with
  | error err =>
    have hdeep : ¬∀ e ∈ trailEvents db org, e.Shallow := by
      intro hshallow
      rw [readSealedEvents_iff.mpr ⟨hshallow, rfl⟩] at hread
      cases hread
    simp [hdeep]
  | ok events =>
    obtain ⟨hshallow, rfl⟩ := readSealedEvents_iff.mp hread
    rw [iff_true_right hshallow, and_iff_right hshallow]
    dsimp only
    rw [hashIndex_map_readBack]
    -- the seals are looked at only if the walk found nothing
    cases hchain : (verifyChain nfc g ((trailEvents db org).map SealedEvent.readBack)).ok with
    | false => simp [hchain]
    | true =>
      cases hseals : (verifySeals verifier org (hashIndex (trailEvents db org)) db).ok with
      | false => simp
      | true => simp

end Read

section Seals

variable {verifier org hashBySeq}

theorem checkSeal_none_iff {s : SealRow} {n : ℕ} (hsig : checkSignature org s verifier = none) :
    checkSeal verifier org hashBySeq n s = none ↔
      s.seqStart = n+1 ∧ hashBySeq s.seqEnd = some s.headHash := by
  unfold checkSeal
  by_cases hstart : s.seqStart = n+1
  swap
  · rw [if_pos hstart]
    exact iff_of_false (Option.some_ne_none _) fun h => hstart h.1
  rw [if_neg (not_not.mpr hstart)]
  by_cases hhash : hashBySeq s.seqEnd = some s.headHash
  · rw [if_neg (not_not.mpr hhash)]
    exact iff_of_true hsig ⟨hstart, hhash⟩
  · rw [if_pos hhash]
    exact iff_of_false (Option.some_ne_none _) fun h => hhash h.2

theorem not_ok_of_checkSeal {s : SealRow} {n : ℕ} {rep : VerifyReport}
    (h : checkSeal verifier org hashBySeq n s = some rep) : rep.ok = false := by
  unfold checkSeal at h
  split_ifs at h
  · exact Option.some.inj h ▸ rfl
  · exact Option.some.inj h ▸ rfl
  cases verifier with
  | none => cases h
  | some verify =>
    simp only [checkSignature] at h
    split at h
    · exact Option.some.inj h ▸ rfl
    split at h
    · exact Option.some.inj h ▸ rfl
    split_ifs at h
    exact Option.some.inj h ▸ rfl

theorem verifySealsFrom_ok_iff {rows : List SealRow} {n checked : ℕ}
    (hsig : ∀ s ∈ rows, checkSignature org s verifier = none) :
    (verifySealsFrom verifier org hashBySeq n checked rows).ok = true ↔
      Tiles n rows ∧ ∀ s ∈ rows, hashBySeq s.seqEnd = some s.headHash := by
  induction rows generalizing n checked with
  | nil => exact iff_of_true rfl ⟨trivial, fun s hs => by cases hs⟩
  | cons s rows ih =>
    have hiff : checkSeal verifier org hashBySeq n s = none ↔
        s.seqStart = n+1 ∧ hashBySeq s.seqEnd = some s.headHash :=
      checkSeal_none_iff (hsig s List.mem_cons_self)
    simp only [verifySealsFrom, Tiles, List.forall_mem_cons]
    cases hcheck : checkSeal verifier org hashBySeq n s with
    | some rep =>
      rw [hcheck] at hiff
      refine iff_of_false ?_ fun h => Option.some_ne_none rep (hiff.mpr ⟨h.1.1, h.2.1⟩)
      rw [not_ok_of_checkSeal hcheck]
      exact Bool.false_ne_true
    | none =>
      obtain ⟨hstart, hhash⟩ := hiff.mp hcheck
      rw [ih fun s' hs' => hsig s' (List.mem_cons_of_mem s hs')]
      exact ⟨fun h => ⟨⟨hstart, h.1⟩, hhash, h.2⟩, fun h => ⟨h.1.2, h.2.2⟩⟩

end Seals

section Index

variable {es : List SealedEvent}

theorem hashIndex_of_mem {e : SealedEvent} (hs : es.Pairwise fun a b => a.seq < b.seq)
    (he : e ∈ es) : hashIndex es e.seq = some e.hash := by
  obtain ⟨b, hb⟩ : ∃ b, es.reverse.find? (fun x => x.seq = e.seq) = some b := by
    refine Option.isSome_iff_exists.mp (List.find?_isSome.mpr ⟨e, List.mem_reverse.mpr he, ?_⟩)
    exact decide_eq_true rfl
  have hmem := List.mem_reverse.mp (List.mem_of_find?_eq_some hb)
  have hseq : b.seq = e.seq := by simpa using List.find?_some hb
  rw [hashIndex, hb, eq_of_seq_eq hs hmem he hseq]
  rfl

theorem hashIndex_of_not_mem {n : ℕ} (hn : ∀ e ∈ es, e.seq ≠ n) : hashIndex es n = none := by
  rw [hashIndex, Option.map_eq_none_iff, List.find?_eq_none]
  intro e he hd
  exact hn e (List.mem_reverse.mp he) (of_decide_eq_true hd)

end Index

end ArchGuard.Audit
