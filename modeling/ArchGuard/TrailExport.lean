import ArchGuard.AuditVerificationJob
import ArchGuard.SealExport

/-! The portable export of an organization's trail, and the verification its recipient makes. -/
namespace ArchGuard.Audit
open ReadCommitted TransitionRun GoJson GoText

/-- A record of the stream, one a line; its type is the constructor. -/
inductive ExportRecord
  | header (organizationId : String) (exportedAtMicros schemaVersion : ℤ) (genesisHashHex : String)
      (hasChain : Bool)
  | publicKey (keyId publicKeyHex : String)
  | event (seq : ℕ) (prevHashHex hashHex : String) (event : Value)
  | seal (seqStart seqEnd : ℕ) (headHashHex : String) (sealedAtMicros : ℤ)
      (keyId signatureHex : String)
  | procedure (text : String)

/-- Where an export ends before its stream is complete. -/
inductive TrailExportError
  | genesis (err : AuditError)
  | publicKey (keyId : String)
  | events (err : ScanError)
  | event

def TrailExportError.text (cause : String) : TrailExportError → String
  | .genesis err => err.text
  | .publicKey keyId =>
    "audit: chave pública do key_id " ++ quote keyId ++ " não disponível para exportação"
  | .events err => "audit: leitura de eventos para verificação falhou: " ++ err.text
  | .event => "audit: escrita de evento falhou: " ++ cause

def verificationProcedure : String :=
  "Procedimento de verificação (RFC-0003 §6):\n" ++
  "1. Leia o registro \"meta\": obtenha organization_id e genesis_hash_hex.\n" ++
  "2. Para cada \"event\" em ordem de seq (1..N):\n" ++
  "   a. canonical = JSON canônico do campo \"event\" (chaves ordenadas, UTF-8 NFC,\n" ++
  "      occurred_at em microssegundos inteiros; ver schema_version);\n" ++
  "   b. esperado_hash = SHA-256( prev_hash_do_evento || canonical );\n" ++
  "   c. confirme esperado_hash == hash_hex; confirme prev_hash_hex == hash do\n" ++
  "      evento anterior (ou genesis_hash_hex no primeiro); confirme seq consecutivo.\n" ++
  "3. Para cada \"seal\": seal_content = JSON canônico de \x7borganization_id, seq_start,\n" ++
  "   seq_end, head_hash(hex), sealed_at_us\x7d; verifique a assinatura Ed25519 com a\n" ++
  "   \"public_key\" cujo key_id corresponde; confirme head_hash == hash do evento em\n" ++
  "   seq_end e a contiguidade dos intervalos.\n" ++
  "Qualquer divergência indica adulteração (alteração, remoção, reordenação ou\n" ++
  "selo inválido)."

/-- The hex of no bytes is the empty string. -/
def exportMeta (org : Uuid) (exportedAt : Time) (genesis : Option Bytes) : ExportRecord :=
  .header org.text exportedAt.unixMicro auditSchemaVersion (hexBytes (genesis.getD []))
    genesis.isSome

def keyIds (rows : List SealRow) : List String := (rows.map SealRow.keyId).eraseDups

def exportPublicKey (resolve : String → Option Bytes) (keyId : String) :
    Except TrailExportError ExportRecord :=
  match resolve keyId with
  | none => .error (.publicKey keyId)
  | some pub => .ok (.publicKey keyId (hexBytes pub))

/-- The encoder fails on a time that RFC 3339 does not express. -/
def exportEvent (e : SealedEvent) : Except TrailExportError ExportRecord :=
  match marshalEvent e.event with
  | none => .error .event
  | some event => .ok (.event e.seq (hexBytes e.prevHash) (hexBytes e.hash) event)

def exportSeal (s : SealRow) : ExportRecord :=
  .seal s.seqStart s.seqEnd (hexBytes s.headHash) s.sealedAt.unixMicro s.keyId (hexBytes s.signature)

/-- The records up to the first that cannot be made, and the error of that one. -/
def encodeEach {α : Type} (f : α → Except TrailExportError ExportRecord) :
    List α → List ExportRecord × Option TrailExportError
  | [] => ([], none)
  | a :: rest =>
    match f a with
    | .error err => ([], some err)
    | .ok record => (record :: (encodeEach f rest).1, (encodeEach f rest).2)

/-- What an export has written, and the error it returned. -/
structure ExportResult where
  stream : List ExportRecord
  error : Option TrailExportError

/-- `Export`: each of the three states is what one of its transactions sees. -/
def exportTrail (resolve : String → Option Bytes) (exportedAt : Time) (org : Uuid)
    (atGenesis atSeals atEvents : Db) : ExportResult :=
  match readGenesisHash atGenesis org with
  | .error err => ⟨[], some (.genesis err)⟩
  | .ok genesis =>
    let rows := sortedSeals org atSeals
    let keys := encodeEach (exportPublicKey resolve) (keyIds rows)
    match keys.2 with
    | some err => ⟨exportMeta org exportedAt genesis :: keys.1, some err⟩
    | none =>
      match readSealedEvents atEvents org with
      | .error err => ⟨exportMeta org exportedAt genesis :: keys.1, some (.events err)⟩
      | .ok read =>
        let events := encodeEach exportEvent read
        match events.2 with
        | some err => ⟨exportMeta org exportedAt genesis :: (keys.1 ++ events.1), some err⟩
        | none => ⟨exportMeta org exportedAt genesis :: (keys.1 ++ (events.1 ++
            (rows.map exportSeal ++ [.procedure verificationProcedure]))), none⟩

section Recipient

def readHex (s : String) : Option Bytes := Migration.hexDecode (utf8 s)

/-- The records of one type as the recipient reads them; `none` is another type. -/
abbrev Pick (α : Type) := ExportRecord → Option (Option α)

def readMeta : Pick (Uuid × Bytes)
  | .header organizationId _ _ genesisHashHex _ => some do
    some (← Uuid.ofText organizationId, ← readHex genesisHashHex)
  | _ => none

def readPublicKey : Pick (String × Bytes)
  | .publicKey keyId publicKeyHex => some do some (keyId, ← readHex publicKeyHex)
  | _ => none

def readSealedEvent : Pick SealedEvent
  | .event seq prevHashHex hashHex event => some do
    some ⟨← readEvent event, seq, ← readHex prevHashHex, ← readHex hashHex⟩
  | _ => none

def readSeal : Pick SealRow
  | .seal seqStart seqEnd headHashHex sealedAtMicros keyId signatureHex => some do
    some ⟨seqStart, seqEnd, ← readHex headHashHex, sealedAtMicros*1000, keyId,
      ← readHex signatureHex⟩
  | _ => none

def readRecords {α : Type} (pick : Pick α) (stream : List ExportRecord) : Option (List α) :=
  (stream.filterMap pick).mapM id

variable (nfc : GoString → GoString)

/-- Step 2 of the procedure, on the events from position `i` on. -/
def chainHolds : (prev : Bytes) → (i : ℕ) → List SealedEvent → Bool
  | _, _, [] => true
  | prev, i, e :: events =>
    linkHash nfc e.prevHash e.event = e.hash && e.prevHash = prev && e.seq = i+1 &&
      chainHolds e.hash (i+1) events

def exportedKeys (verifies : Bytes → Bytes → Bytes → Bool) (keys : List (String × Bytes)) :
    SealVerifier := fun content signature keyId =>
  match keys.lookup keyId with
  | none => .error "public_key"
  | some pub => .ok (verifies pub content signature)

/-- The procedure, on a stream; `verifies` is Ed25519 on key, content and signature. Step 3 is what
the verifier checks of seals. -/
def passes (verifies : Bytes → Bytes → Bytes → Bool) (stream : List ExportRecord) : Bool :=
  match readRecords readMeta stream, readRecords readPublicKey stream,
      readRecords readSealedEvent stream, readRecords readSeal stream with
  | some [(org, genesis)], some keys, some events, some rows =>
    chainHolds nfc genesis 0 events &&
      (verifySealsFrom (some (exportedKeys verifies keys)) org (hashIndex events) 0 0 rows).ok
  | _, _, _, _ => false

end Recipient

section Reading

theorem readHex_hexBytes (b : Bytes) : readHex (hexBytes b) = some b := hexDecode_hexBytes b

theorem readRecords_of_filterMap {α : Type} {pick : Pick α} {stream : List ExportRecord}
    {xs : List α} (h : stream.filterMap pick = xs.map some) : readRecords pick stream = some xs := by
  rw [readRecords, h]
  clear h
  induction xs with
  | nil => rfl
  | cons x xs ih =>
    rw [List.map_cons, List.mapM_cons, ih]
    rfl

section Each

variable {α β : Type} {f : α → Except TrailExportError ExportRecord} {pick : Pick β} {g : α → β}
  {as : List α}

theorem encodeEach_cons {a : α} (h : (encodeEach f (a :: as)).2 = none) :
    ∃ r, f a = .ok r ∧ (encodeEach f (a :: as)).1 = r :: (encodeEach f as).1 ∧
      (encodeEach f as).2 = none := by
  cases hf : f a with
  | error err => simp [encodeEach, hf] at h
  | ok r =>
    simp only [encodeEach, hf] at h ⊢
    exact ⟨r, rfl, rfl, h⟩

theorem filterMap_encodeEach (h : (encodeEach f as).2 = none)
    (hpick : ∀ a ∈ as, ∀ r, f a = .ok r → pick r = some (some (g a))) :
    (encodeEach f as).1.filterMap pick = (as.map g).map some := by
  induction as with
  | nil => rfl
  | cons a as ih =>
    obtain ⟨r, hr, hwritten, hrest⟩ := encodeEach_cons h
    rw [hwritten, List.filterMap_cons, hpick a List.mem_cons_self r hr,
      ih hrest fun a' ha' => hpick a' (List.mem_cons_of_mem a ha')]
    rfl

theorem filterMap_encodeEach_nil (h : (encodeEach f as).2 = none)
    (hpick : ∀ a r, f a = .ok r → pick r = none) : (encodeEach f as).1.filterMap pick = [] := by
  induction as with
  | nil => rfl
  | cons a as ih =>
    obtain ⟨r, hr, hwritten, hrest⟩ := encodeEach_cons h
    rw [hwritten, List.filterMap_cons, hpick a r hr]
    exact ih hrest

theorem ok_of_encodeEach (h : (encodeEach f as).2 = none) : ∀ a ∈ as, ∃ r, f a = .ok r := by
  induction as with
  | nil => exact fun a ha => by cases ha
  | cons a as ih =>
    obtain ⟨r, hr, -, hrest⟩ := encodeEach_cons h
    exact List.forall_mem_cons.mpr ⟨⟨r, hr⟩, ih hrest⟩

end Each

/-- A seal whose time is what the column keeps of it. -/
def SealRow.stored (s : SealRow) : SealRow := { s with sealedAt := s.sealedAt.stored }

theorem readSealedEvent_exportEvent {e : SealedEvent} {r : ExportRecord} (he : e.event.WellFormed)
    (h : exportEvent e = .ok r) : readSealedEvent r = some (some e) := by
  unfold exportEvent at h
  split at h
  · cases h
  · rename_i v hv
    obtain rfl := Except.ok.inj h
    have hread : readEvent v = some e.event := (readEvent_marshalEvent hv).trans (congrArg some he.coerced)
    simp only [readSealedEvent, hread, readHex_hexBytes, Option.bind_eq_bind, Option.bind_some]

theorem readSeal_exportSeal (s : SealRow) : readSeal (exportSeal s) = some (some s.stored) := by
  simp only [readSeal, exportSeal, readHex_hexBytes, Option.bind_eq_bind, Option.bind_some]
  rfl

theorem readMeta_exportMeta (org : Uuid) (exportedAt : Time) (genesis : Option Bytes) :
    readMeta (exportMeta org exportedAt genesis) = some (some (org, genesis.getD [])) := by
  simp only [readMeta, exportMeta, readHex_hexBytes, Uuid.ofText_text, Option.bind_eq_bind,
    Option.bind_some]

variable {resolve : String → Option Bytes} {keyId : String} {r : ExportRecord}

theorem exportPublicKey_ok (h : exportPublicKey resolve keyId = .ok r) :
    ∃ pub, resolve keyId = some pub ∧ r = .publicKey keyId (hexBytes pub) := by
  unfold exportPublicKey at h
  split at h
  · cases h
  · rename_i pub hpub
    exact ⟨pub, hpub, (Except.ok.inj h).symm⟩

theorem exportEvent_ok {e : SealedEvent} (h : exportEvent e = .ok r) :
    ∃ v, r = .event e.seq (hexBytes e.prevHash) (hexBytes e.hash) v := by
  unfold exportEvent at h
  split at h
  · cases h
  · exact ⟨_, (Except.ok.inj h).symm⟩

end Reading

section Stream

variable {resolve : String → Option Bytes} {exportedAt : Time} {org : Uuid}
  {atGenesis atSeals atEvents : Db}

theorem exportTrail_complete
    (h : (exportTrail resolve exportedAt org atGenesis atSeals atEvents).error = none) :
    ∃ genesis read, readGenesisHash atGenesis org = .ok genesis ∧
      readSealedEvents atEvents org = .ok read ∧
      (encodeEach (exportPublicKey resolve) (keyIds (sortedSeals org atSeals))).2 = none ∧
      (encodeEach exportEvent read).2 = none ∧
      (exportTrail resolve exportedAt org atGenesis atSeals atEvents).stream =
        exportMeta org exportedAt genesis ::
          ((encodeEach (exportPublicKey resolve) (keyIds (sortedSeals org atSeals))).1 ++
            ((encodeEach exportEvent read).1 ++
              ((sortedSeals org atSeals).map exportSeal ++ [.procedure verificationProcedure]))) := by
  cases hg : readGenesisHash atGenesis org with
  | error err => simp [exportTrail, hg] at h
  | ok genesis =>
    cases hk : (encodeEach (exportPublicKey resolve) (keyIds (sortedSeals org atSeals))).2 with
    | some err => simp [exportTrail, hg, hk] at h
    | none =>
      cases hr : readSealedEvents atEvents org with
      | error err => simp [exportTrail, hg, hk, hr] at h
      | ok read =>
        cases he : (encodeEach exportEvent read).2 with
        | some err => simp [exportTrail, hg, hk, hr, he] at h
        | none =>
          refine ⟨genesis, read, rfl, rfl, rfl, he, ?_⟩
          simp only [exportTrail, hg, hk, hr, he]

/-- The exported key of an id, as the recipient looks it up. -/
def exportedKey (resolve : String → Option Bytes) (keyId : String) : String × Bytes :=
  (keyId, (resolve keyId).getD [])

section Picks

variable {α : Type} {pick : Pick α}

theorem filterMap_stream (genesis : Option Bytes) (keys events : List ExportRecord)
    (rows : List SealRow) (hprocedure : ∀ text, pick (.procedure text) = none) :
    (exportMeta org exportedAt genesis :: (keys ++ (events ++
        (rows.map exportSeal ++ [.procedure verificationProcedure])))).filterMap pick =
      (pick (exportMeta org exportedAt genesis)).toList ++ (keys.filterMap pick ++
        (events.filterMap pick ++ rows.filterMap fun s => pick (exportSeal s))) := by
  have hlast : [ExportRecord.procedure verificationProcedure].filterMap pick = [] := by
    rw [List.filterMap_cons, hprocedure]
    rfl
  have hfirst (rest : List ExportRecord) :
      (exportMeta org exportedAt genesis :: rest).filterMap pick =
        (pick (exportMeta org exportedAt genesis)).toList ++ rest.filterMap pick := by
    rw [List.filterMap_cons]
    cases pick (exportMeta org exportedAt genesis) <;> rfl
  rw [hfirst, List.filterMap_append, List.filterMap_append, List.filterMap_append, hlast,
    List.append_nil, List.filterMap_map]
  rfl

theorem filterMap_keys (h : (encodeEach (exportPublicKey resolve) (keyIds (sortedSeals org atSeals))).2 =
      none) (hpick : ∀ keyId hex, pick (.publicKey keyId hex) = none) :
    (encodeEach (exportPublicKey resolve) (keyIds (sortedSeals org atSeals))).1.filterMap pick = [] := by
  apply filterMap_encodeEach_nil h
  intro keyId r hr
  obtain ⟨pub, -, rfl⟩ := exportPublicKey_ok hr
  exact hpick keyId _

theorem filterMap_events {read : List SealedEvent} (h : (encodeEach exportEvent read).2 = none)
    (hpick : ∀ seq prevHash hash event, pick (.event seq prevHash hash event) = none) :
    (encodeEach exportEvent read).1.filterMap pick = [] := by
  apply filterMap_encodeEach_nil h
  intro e r hr
  obtain ⟨v, rfl⟩ := exportEvent_ok hr
  exact hpick _ _ _ v

end Picks

theorem wellFormed_of_read {db : Db} {read : List SealedEvent}
    (h : readSealedEvents db org = .ok read) : ∀ e ∈ read, e.event.WellFormed := by
  obtain ⟨hshallow, rfl⟩ := readSealedEvents_iff.mp h
  intro e he
  obtain ⟨x, hx, rfl⟩ := List.mem_map.mp he
  obtain ⟨s, -, rfl⟩ := List.mem_map.mp hx
  exact wellFormed_readBack (hshallow _ hx)

/-- What a complete stream passes on is the chain of the events as their rows read back, and the
seals. -/
theorem passes_exportTrail {nfc : GoString → GoString} {verifies : Bytes → Bytes → Bytes → Bool}
    (h : (exportTrail resolve exportedAt org atGenesis atSeals atEvents).error = none) :
    ∃ genesis, readGenesisHash atGenesis org = .ok genesis ∧
      (∀ e ∈ trailEvents atEvents org, e.Shallow) ∧
      passes nfc verifies (exportTrail resolve exportedAt org atGenesis atSeals atEvents).stream =
        (chainHolds nfc (genesis.getD []) 0 ((trailEvents atEvents org).map SealedEvent.readBack) &&
          (verifySealsFrom (some (exportedKeys verifies
              ((keyIds (sortedSeals org atSeals)).map (exportedKey resolve)))) org
            (hashIndex (trailEvents atEvents org)) 0 0
            ((sortedSeals org atSeals).map SealRow.stored)).ok) := by
  obtain ⟨genesis, read, hgenesis, hsealed, hkeys, hevents, hstream⟩ := exportTrail_complete h
  obtain ⟨hshallow, hback⟩ := readSealedEvents_iff.mp hsealed
  refine ⟨genesis, hgenesis, hshallow, ?_⟩
  -- each reading picks the records of its own type, and passes over the others
  have hmeta : readRecords readMeta (exportTrail resolve exportedAt org atGenesis atSeals
      atEvents).stream = some [(org, genesis.getD [])] := by
    apply readRecords_of_filterMap
    rw [hstream, filterMap_stream _ _ _ _ fun _ => rfl, filterMap_keys hkeys fun _ _ => rfl,
      filterMap_events hevents fun _ _ _ _ => rfl, readMeta_exportMeta]
    simp [readMeta, exportSeal]
  have hread : readRecords readPublicKey (exportTrail resolve exportedAt org atGenesis atSeals
      atEvents).stream = some ((keyIds (sortedSeals org atSeals)).map (exportedKey resolve)) := by
    apply readRecords_of_filterMap
    rw [hstream, filterMap_stream _ _ _ _ fun _ => rfl, filterMap_events hevents fun _ _ _ _ => rfl,
      @filterMap_encodeEach _ _ _ _ (exportedKey resolve) _ hkeys]
    · simp [readPublicKey, exportMeta, exportSeal]
    · intro keyId _ r hr
      obtain ⟨pub, hpub, rfl⟩ := exportPublicKey_ok hr
      simp [readPublicKey, readHex_hexBytes, exportedKey, hpub]
  have hseen : readRecords readSealedEvent (exportTrail resolve exportedAt org atGenesis atSeals
      atEvents).stream = some read := by
    apply readRecords_of_filterMap
    rw [hstream, filterMap_stream _ _ _ _ fun _ => rfl, filterMap_keys hkeys fun _ _ => rfl,
      @filterMap_encodeEach _ _ _ _ id _ hevents]
    · simp [readSealedEvent, exportMeta, exportSeal]
    · exact fun e he r hr => readSealedEvent_exportEvent (wellFormed_of_read hsealed e he) hr
  have hrows : readRecords readSeal (exportTrail resolve exportedAt org atGenesis atSeals
      atEvents).stream = some ((sortedSeals org atSeals).map SealRow.stored) := by
    apply readRecords_of_filterMap
    have hseals : ((sortedSeals org atSeals).filterMap fun s => readSeal (exportSeal s)) =
        ((sortedSeals org atSeals).map SealRow.stored).map some := by
      rw [List.map_map, ← List.filterMap_eq_map]
      exact List.filterMap_congr fun s _ => readSeal_exportSeal s
    rw [hstream, filterMap_stream _ _ _ _ fun _ => rfl, filterMap_keys hkeys fun _ _ => rfl,
      filterMap_events hevents fun _ _ _ _ => rfl, hseals]
    rfl
  rw [passes, hmeta, hread, hseen, hrows, hback]
  simp only [hashIndex_map_readBack]

theorem lookup_exportedKey {rows : List SealRow} {s : SealRow} (hs : s ∈ rows)
    (h : (encodeEach (exportPublicKey resolve) (keyIds rows)).2 = none) :
    ∃ pub, resolve s.keyId = some pub ∧
      ((keyIds rows).map (exportedKey resolve)).lookup s.keyId = some pub := by
  have hmem : s.keyId ∈ keyIds rows := List.mem_eraseDups.mpr (List.mem_map_of_mem hs)
  obtain ⟨r, hr⟩ := ok_of_encodeEach h s.keyId hmem
  obtain ⟨pub, hpub, -⟩ := exportPublicKey_ok hr
  refine ⟨pub, hpub, ?_⟩
  generalize keyIds rows = ids at hmem
  clear h
  induction ids with
  | nil => cases hmem
  | cons keyId rest ih =>
    rw [List.map_cons, exportedKey, List.lookup_cons]
    by_cases heq : s.keyId = keyId
    · subst heq
      simp [hpub]
    · have hne : (s.keyId == keyId) = false := beq_eq_false_iff_ne.mpr heq
      rw [hne]
      exact ih ((List.mem_cons.mp hmem).resolve_left heq)

end Stream

section Procedure

variable {nfc : GoString → GoString} {env : Env} {org : Uuid}

theorem chainHolds_iff {prev : Bytes} {i : ℕ} {events : List SealedEvent} :
    chainHolds nfc prev i events = true ↔ Linked nfc prev i events := by
  induction events generalizing prev i with
  | nil => exact iff_of_true rfl trivial
  | cons e events ih =>
    simp only [chainHolds, Linked, Bool.and_eq_true, decide_eq_true_eq, ih]
    constructor
    · rintro ⟨⟨⟨hhash, hprev⟩, hseq⟩, hrest⟩
      exact ⟨hseq, hprev, by rw [← hhash, hprev], hrest⟩
    · rintro ⟨hseq, hprev, hhash, hrest⟩
      exact ⟨⟨⟨by rw [hhash, hprev], hprev⟩, hseq⟩, hrest⟩

theorem tiles_map_stored {n : ℕ} {rows : List SealRow} (h : Tiles n rows) :
    Tiles n (rows.map SealRow.stored) := by
  induction rows generalizing n with
  | nil => trivial
  | cons s rows ih => exact ⟨h.1, ih h.2⟩

/-- What the custodied key signs verifies under the public key of its id. -/
def KeysPublished (env : Env) (resolve : String → Option Bytes)
    (verifies : Bytes → Bytes → Bytes → Bool) : Prop :=
  ∀ content signature keyId pub, env.sign content = some (signature, keyId) →
    resolve keyId = some pub → verifies pub content signature = true

theorem checkSignature_exported {resolve : String → Option Bytes}
    {verifies : Bytes → Bytes → Bytes → Bool} {db : Db} {s : SealRow} {keys : List (String × Bytes)}
    {pub : Bytes} (hkeys : KeysPublished env resolve verifies) (hs : SealOk env db org s)
    (hpub : resolve s.keyId = some pub) (hlookup : keys.lookup s.keyId = some pub) :
    checkSignature org s.stored (some (exportedKeys verifies keys)) = none := by
  obtain ⟨content, hcontent, hsign⟩ := hs.signed
  have hstored : sealContent org s.stored.seqStart s.stored.seqEnd s.stored.headHash
      s.stored.sealedAt.unixMicro = .ok content := by
    rw [SealRow.stored, Time.stored_unixMicro]
    exact hcontent
  have hverifies : exportedKeys verifies keys content s.stored.signature s.stored.keyId = .ok true := by
    simp only [exportedKeys, SealRow.stored, hlookup, hkeys _ _ _ _ hsign hpub]
  simp only [checkSignature, hstored, hverifies, ↓reduceIte]

end Procedure

section Runs

variable {env : Env} {db : Db} {c c' : AuditCfg} {es : List (Event Req)} {org : Uuid} {g : Bytes}

theorem sealedTrail_of_run (hdb : NoTrail db)
    (h : run (exec (auditProgram env)) (Cfg.idle db) es = some c) : SealedTrail env c :=
  run_always (fun _ _ _ hc he => hc.step he) (sealedTrail_idle hdb) h

theorem headsKept_of_run (h : run (exec (auditProgram env)) (Cfg.idle db) es = some c) :
    HeadsKept c :=
  run_always (fun _ _ _ hc he => hc.step he) (headsKept_idle db) h

theorem begun_of_run (hc : HeadsKept c) (hb : Begun c.db org g)
    (h : run (exec (auditProgram env)) c es = some c') : Begun c'.db org g := by
  have hkept : HeadsKept c' ∧ Begun c'.db org g := by
    refine run_always (I := fun d => HeadsKept d ∧ Begun d.db org g) ?_ ⟨hc, hb⟩ h
    intro d e d' ⟨hd, hbegun⟩ he
    exact ⟨hd.step he, hd.begun_of_exec he hbegun⟩
  exact hkept.2

theorem prefix_of_seq {xs ys : List SealedEvent}
    (hx : xs.map SealedEvent.seq = List.range' 1 xs.length)
    (hy : ys.map SealedEvent.seq = List.range' 1 ys.length) (hmem : ∀ e ∈ xs, e ∈ ys) :
    xs <+: ys := by
  have hseq {zs : List SealedEvent} (hz : zs.map SealedEvent.seq = List.range' 1 zs.length) {i : ℕ}
      (hi : i < zs.length) : (zs[i]).seq = 1+i := by
    have h := congrArg (fun l => l[i]?) hz
    simpa [List.getElem?_range', hi] using h
  rw [List.prefix_iff_getElem?]
  intro i hi
  obtain ⟨j, hj, he⟩ := List.getElem_of_mem (hmem _ (List.getElem_mem hi))
  -- the event has its number in both lists, and the number is its place
  obtain rfl : j = i := by
    have h := hseq hy hj
    rw [he, hseq hx hi] at h
    omega
  rw [List.getElem?_eq_getElem hj, he]

/-- However appends, seals, aborts and kills are interleaved, a trail is only ever extended: its
events at one state begin its events at every later one, what a reader finds of them begins what a
reader finds later, and its genesis stays. -/
theorem trail_only_extended {later : List (Event Req)} (hdb : NoTrail db)
    (h : run (exec (auditProgram env)) (Cfg.idle db) es = some c)
    (hlater : run (exec (auditProgram env)) c later = some c') :
    (trailEvents c.db org <+: trailEvents c'.db org) ∧
      (∀ read', readSealedEvents c'.db org = .ok read' →
        ∃ read, readSealedEvents c.db org = .ok read ∧ read <+: read') ∧
      (Begun c.db org g → Begun c'.db org g) := by
  have htrail := sealedTrail_of_run hdb h
  have hkept {g : Bytes} (hb : Begun c.db org g) : Begun c'.db org g :=
    begun_of_run (headsKept_of_run h) hb hlater
  have hgrows := grows_of_run htrail.1 htrail.2.1 hlater
  have hfront : trailEvents c.db org <+: trailEvents c'.db org := by
    rcases htrail.1.base org with ⟨-, hnone⟩ | ⟨hd, g, trail, hc, -⟩
    · rw [trailEvents_eq hnone List.Pairwise.nil]
      exact List.nil_prefix
    have hbegun : Begun c.db org g := ⟨hd, hc.head, hc.genesis⟩
    have hinv : Inv env.nfc c' := inv_of_run hdb ((run_append_eq h).trans hlater)
    apply prefix_of_seq (firstPart_read htrail.1 hbegun).seq (firstPart_read hinv (hkept hbegun)).seq
    intro e he
    obtain ⟨hstored, horg⟩ := mem_trailEvents.mp he
    exact mem_trailEvents.mpr ⟨hgrows e hstored, horg⟩
  refine ⟨hfront, fun read' hread' => ?_, hkept⟩
  obtain ⟨hshallow, rfl⟩ := readSealedEvents_iff.mp hread'
  refine ⟨_, readSealedEvents_iff.mpr ⟨fun e he => hshallow e (hfront.subset he), rfl⟩, ?_⟩
  exact hfront.map SealedEvent.readBack

theorem verifySeals_exported {resolve : String → Option Bytes}
    {verifies : Bytes → Bytes → Bytes → Bool} {seen : Db} (hkeys : KeysPublished env resolve verifies)
    (hi : Inv env.nfc c) (hok : ∀ s ∈ sortedSeals org seen, SealOk env c.db org s)
    (hpublic : (encodeEach (exportPublicKey resolve) (keyIds (sortedSeals org seen))).2 = none)
    (htiles : Tiles 0 (sortedSeals org seen)) :
    (verifySealsFrom (some (exportedKeys verifies
        ((keyIds (sortedSeals org seen)).map (exportedKey resolve)))) org
      (hashIndex (trailEvents c.db org)) 0 0
      ((sortedSeals org seen).map SealRow.stored)).ok = true := by
  rw [verifySealsFrom_ok_iff]
  · refine ⟨tiles_map_stored htiles, ?_⟩
    intro t ht
    obtain ⟨s, hs, rfl⟩ := List.mem_map.mp ht
    obtain ⟨e, he, horg, hseq, hhash⟩ := (hok s hs).ends
    have hindex := hashIndex_of_mem (strict_trailEvents hi org)
      (mem_trailEvents.mpr ⟨he, horg⟩)
    rw [hseq, hhash] at hindex
    exact hindex
  · intro t ht
    obtain ⟨s, hs, rfl⟩ := List.mem_map.mp ht
    obtain ⟨pub, hpub, hlookup⟩ := lookup_exportedKey hs hpublic
    exact checkSignature_exported hkeys (hok s hs) hpub hlookup

/-- The events read back are linked behind the genesis exactly if each of them is readable. -/
theorem linked_readBack_iff (hnfc : KeepsReplacement env.nfc) (hi : Inv env.nfc c)
    (hb : Begun c.db org g) (hfree : ∀ e ∈ trailEvents c.db org, e.HashedApart env.nfc)
    (hshallow : ∀ e ∈ trailEvents c.db org, e.Shallow) :
    Linked env.nfc g 0 ((trailEvents c.db org).map SealedEvent.readBack) ↔
      ∀ e ∈ trailEvents c.db org, e.event.Readable := by
  have hown (e : SealedEvent) (he : e ∈ trailEvents c.db org) :
      e.hash = linkHash env.nfc e.prevHash e.event := hi.hash_eq (mem_trailEvents.mp he).1
  have hlinked : Linked env.nfc g 0 (trailEvents c.db org) := by
    obtain ⟨h, es, hc, ht⟩ := chain_of_begun hi hb
    rw [trailEvents_eq ht (pairwise_of_linked hc.linked)]
    exact hc.linked
  rw [linked_map_readBack hown, and_iff_right hlinked]
  refine forall₂_congr fun e he => ⟨fun hhash => ?_, fun hread => ?_⟩
  · exact readable_of_rehashes hnfc (hfree e he) (hown e he) ⟨hshallow e he, hhash⟩
  · exact (rehashes_of_readable (hown e he) hread).2

theorem not_linked_nil (hi : Inv env.nfc c) (hne : trailEvents c.db org ≠ []) :
    ¬Linked env.nfc [] 0 ((trailEvents c.db org).map SealedEvent.readBack) := by
  intro hback
  obtain ⟨hlinked, -⟩ := (linked_map_readBack fun e he =>
    hi.hash_eq (mem_trailEvents.mp he).1).mp hback
  rcases hi.base org with ⟨-, ht⟩ | ⟨h, g, trail, hc, ht⟩
  · exact hne (trailEvents_eq ht List.Pairwise.nil)
  have hfirst := hc.linked
  rw [← trailEvents_eq ht (pairwise_of_linked hc.linked)] at hfirst
  cases hevents : trailEvents c.db org with
  | nil => exact hne hevents
  | cons e events =>
    rw [hevents] at hlinked hfirst
    -- the first event follows a genesis hash, and that is not empty
    have hempty : g = [] := hfirst.2.1.symm.trans hlinked.2.1
    have hlen := length_genesisHash hc.genesis
    rw [hempty] at hlen
    cases hlen

theorem not_passes_of_no_head {resolve : String → Option Bytes}
    {verifies : Bytes → Bytes → Bytes → Bool} {exportedAt : Time} {atGenesis atSeals : Db}
    (hi : Inv env.nfc c) (hnone : atGenesis.row (.head org) = none)
    (hok : (exportTrail resolve exportedAt org atGenesis atSeals c.db).error = none)
    (hne : trailEvents c.db org ≠ []) :
    passes env.nfc verifies (exportTrail resolve exportedAt org atGenesis atSeals c.db).stream =
      false := by
  obtain ⟨genesis, hread, -, hpasses⟩ := @passes_exportTrail _ _ _ _ _ _ env.nfc verifies hok
  obtain rfl : genesis = none := by
    rw [readGenesisHash, hnone] at hread
    exact (Except.ok.inj hread).symm
  have hchain : chainHolds env.nfc [] 0 ((trailEvents c.db org).map SealedEvent.readBack) = false := by
    rw [← Bool.not_eq_true, chainHolds_iff]
    exact not_linked_nil hi hne
  rw [hpasses, Option.getD_none, hchain, Bool.false_and]

end Runs

/-- Whatever appends and seals come between its three reads, an export of contiguous seals passes
the procedure that it carries exactly when the chain had begun when the genesis was read, or no
event was there yet when the events were read, and the columns give the actors of each event back. -/
theorem export_verifies_iff {env : Env} {resolve : String → Option Bytes}
    {verifies : Bytes → Bytes → Bytes → Bool} {exportedAt : Time} {org : Uuid} {db : Db}
    {c₁ c₂ c₃ : AuditCfg} {es₁ es₂ es₃ : List (Event Req)}
    (hkeys : KeysPublished env resolve verifies) (hnfc : KeepsReplacement env.nfc) (hdb : NoTrail db)
    (h₁ : run (exec (auditProgram env)) (Cfg.idle db) es₁ = some c₁)
    (h₂ : run (exec (auditProgram env)) c₁ es₂ = some c₂)
    (h₃ : run (exec (auditProgram env)) c₂ es₃ = some c₃)
    (htiles : Tiles 0 (sortedSeals org c₂.db))
    (hok : (exportTrail resolve exportedAt org c₁.db c₂.db c₃.db).error = none)
    (hfree : ∀ e ∈ trailEvents c₃.db org, e.HashedApart env.nfc) :
    passes env.nfc verifies (exportTrail resolve exportedAt org c₁.db c₂.db c₃.db).stream = true ↔
      ((c₁.db.row (.head org)).isSome = true ∨ trailEvents c₃.db org = []) ∧
        ∀ e ∈ trailEvents c₃.db org, e.event.Readable := by
  have h₁₂ := run_append.mpr ⟨c₁, h₁, h₂⟩
  have h₁₃ := run_append.mpr ⟨c₂, h₁₂, h₃⟩
  have htrail₂ := sealedTrail_of_run hdb h₁₂
  have hi₃ := (sealedTrail_of_run hdb h₁₃).1
  have hgrows := grows_of_run htrail₂.1 htrail₂.2.1 h₃
  have hseals (s : SealRow) (hs : s ∈ sortedSeals org c₂.db) : SealOk env c₃.db org s :=
    (sealOk_of_mem htrail₂.2.1.stored hs).grow hgrows
  obtain ⟨-, -, -, -, hpublic, -, -⟩ := exportTrail_complete hok
  obtain ⟨genesis, hread, hshallow, hpasses⟩ :=
    @passes_exportTrail _ _ _ _ _ _ env.nfc verifies hok
  rw [verifySeals_exported hkeys hi₃ hseals hpublic htiles, Bool.and_true] at hpasses
  rcases (sealedTrail_of_run hdb h₁).1.base org with ⟨hnone, -⟩ | ⟨h, g, trail, hc, -⟩
  · -- no head: the exported genesis is empty, and no event hangs on it
    rw [hnone]
    constructor
    · intro hpass
      have hnil : trailEvents c₃.db org = [] := by
        by_contra hne
        rw [not_passes_of_no_head hi₃ hnone hok hne] at hpass
        cases hpass
      refine ⟨Or.inr hnil, fun e he => ?_⟩
      rw [hnil] at he
      cases he
    · rintro ⟨hor, -⟩
      have hnil : trailEvents c₃.db org = [] := hor.resolve_left Bool.false_ne_true
      rw [hpasses, hnil]
      rfl
  · -- a head: its genesis stays that of the events read later
    rw [readGenesisHash_of_head hc.head hc.genesis] at hread
    obtain rfl := Except.ok.inj hread
    have hbegun : Begun c₃.db org g := by
      apply begun_of_run (headsKept_of_run h₁₂) _ h₃
      exact begun_of_run (headsKept_of_run h₁) ⟨h, hc.head, hc.genesis⟩ h₂
    rw [hc.head, hpasses, Option.getD_some, chainHolds_iff,
      linked_readBack_iff hnfc hi₃ hbegun hfree hshallow]
    exact (and_iff_right (Or.inl rfl)).symm

namespace Sample

/-- The public key of every id, and what it verifies. -/
def publicKey : String → Option Bytes := fun _ => some [1]

def ed25519 : Bytes → Bytes → Bytes → Bool := fun _ content signature => signature = content.take 8

theorem keysPublished : KeysPublished env publicKey ed25519 := by
  intro content signature keyId pub hsign _
  obtain ⟨rfl, -⟩ := Prod.mk.inj (Option.some.inj hsign)
  exact decide_eq_true rfl

end Sample

theorem trail_extended_by_second :
    ∃ c c', run (exec (auditProgram Sample.env)) (Cfg.idle Store.empty) (Sample.appendOne 1 5000) =
        some c ∧ run (exec (auditProgram Sample.env)) c (Sample.appendOne 2 6000) = some c' ∧
      (trailEvents c.db 7).length = 1 ∧ (trailEvents c'.db 7).length = 2 ∧
      trailEvents c.db 7 <+: trailEvents c'.db 7 := by
  have hrun : (run (exec (auditProgram Sample.env)) (Cfg.idle Store.empty)
      (Sample.appendOne 1 5000)).any (fun c => (trailEvents c.db 7).length = 1 &&
        (run (exec (auditProgram Sample.env)) c (Sample.appendOne 2 6000)).any fun c' =>
          (trailEvents c'.db 7).length = 2) = true := by
    decide +kernel
  obtain ⟨c, hc, hrest⟩ := (Option.any_eq_true _ _).mp hrun
  obtain ⟨hone, hrest⟩ := Bool.and_eq_true_iff.mp hrest
  obtain ⟨c', hc', htwo⟩ := (Option.any_eq_true _ _).mp hrest
  exact ⟨c, c', hc, hc', of_decide_eq_true hone, of_decide_eq_true htwo,
    (trail_only_extended (g := []) Sample.noTrail_empty hc hc').1⟩

/-- A seal comes before the seals are read, and another event before the events are. -/
theorem export_verifies_interleaved :
    ∃ c₁ c₂ c₃, run (exec (auditProgram Sample.env)) (Cfg.idle Store.empty)
        (Sample.appendOne 1 5000) = some c₁ ∧
      run (exec (auditProgram Sample.env)) c₁ (Sample.sealAll 8000) = some c₂ ∧
      run (exec (auditProgram Sample.env)) c₂ (Sample.appendOne 2 6000) = some c₃ ∧
      (sortedSeals 7 c₂.db).length = 1 ∧ (trailEvents c₃.db 7).length = 2 ∧
      passes Sample.env.nfc Sample.ed25519
        (exportTrail Sample.publicKey 9000 7 c₁.db c₂.db c₃.db).stream = true := by
  have hrun : (run (exec (auditProgram Sample.env)) (Cfg.idle Store.empty)
      (Sample.appendOne 1 5000)).any (fun c₁ => (c₁.db.row (.head 7)).isSome &&
        (run (exec (auditProgram Sample.env)) c₁ (Sample.sealAll 8000)).any fun c₂ =>
          Tiles 0 (sortedSeals 7 c₂.db) && (sortedSeals 7 c₂.db).length = 1 &&
          (run (exec (auditProgram Sample.env)) c₂ (Sample.appendOne 2 6000)).any fun c₃ =>
            (trailEvents c₃.db 7).length = 2 &&
            (trailEvents c₃.db 7).all (fun e => e.event.actor.act.isNone) &&
            (exportTrail Sample.publicKey 9000 7 c₁.db c₂.db c₃.db).error.isNone) = true := by
    decide +kernel
  obtain ⟨c₁, h₁, hrest⟩ := (Option.any_eq_true _ _).mp hrun
  obtain ⟨hhead, hrest⟩ := Bool.and_eq_true_iff.mp hrest
  obtain ⟨c₂, h₂, hrest⟩ := (Option.any_eq_true _ _).mp hrest
  obtain ⟨hseals, hrest⟩ := Bool.and_eq_true_iff.mp hrest
  obtain ⟨htiles, hone⟩ := Bool.and_eq_true_iff.mp hseals
  obtain ⟨c₃, h₃, hrest⟩ := (Option.any_eq_true _ _).mp hrest
  obtain ⟨hrest, hok⟩ := Bool.and_eq_true_iff.mp hrest
  obtain ⟨htwo, hplain⟩ := Bool.and_eq_true_iff.mp hrest
  have hreadable := Sample.readable_of_plain hplain
  refine ⟨c₁, c₂, c₃, h₁, h₂, h₃, of_decide_eq_true hone, of_decide_eq_true htwo, ?_⟩
  exact (export_verifies_iff Sample.keysPublished Sample.keepsReplacement_id Sample.noTrail_empty
    h₁ h₂ h₃ (of_decide_eq_true htiles) (Option.isNone_iff_eq_none.mp hok) fun e he =>
      hashedApart_of_readable (hreadable e he)).mpr ⟨Or.inl hhead, hreadable⟩

/-- The first event of an organization is committed after the genesis was read: the export
succeeds, and its stream does not pass. -/
theorem export_misses_first_genesis :
    KeysPublished Sample.env Sample.publicKey Sample.ed25519 ∧ NoTrail Store.empty ∧
      ∃ c, run (exec (auditProgram Sample.env)) (Cfg.idle Store.empty) (Sample.appendOne 1 5000) =
          some c ∧ Tiles 0 (sortedSeals 7 c.db) ∧
        (exportTrail Sample.publicKey 9000 7 Store.empty c.db c.db).error = none ∧
        passes Sample.env.nfc Sample.ed25519
          (exportTrail Sample.publicKey 9000 7 Store.empty c.db c.db).stream = false := by
  have hrun : (run (exec (auditProgram Sample.env)) (Cfg.idle Store.empty)
      (Sample.appendOne 1 5000)).any (fun c => Tiles 0 (sortedSeals 7 c.db) &&
        (trailEvents c.db 7).length = 1 &&
        (exportTrail Sample.publicKey 9000 7 Store.empty c.db c.db).error.isNone) = true := by
    decide +kernel
  obtain ⟨c, hc, hrest⟩ := (Option.any_eq_true _ _).mp hrun
  obtain ⟨hrest, hok⟩ := Bool.and_eq_true_iff.mp hrest
  obtain ⟨htiles, hone⟩ := Bool.and_eq_true_iff.mp hrest
  have hok := Option.isNone_iff_eq_none.mp hok
  have hne : trailEvents c.db 7 ≠ [] := by
    apply List.ne_nil_of_length_pos
    rw [of_decide_eq_true hone]
    exact Nat.one_pos
  refine ⟨Sample.keysPublished, Sample.noTrail_empty, c, hc, of_decide_eq_true htiles, hok, ?_⟩
  exact not_passes_of_no_head (inv_of_run Sample.noTrail_empty hc) rfl hok hne

end ArchGuard.Audit
