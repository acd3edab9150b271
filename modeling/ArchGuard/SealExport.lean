import ArchGuard.AuditProgram
import ArchGuard.IdentityFusion
import ArchGuard.JsonText

/-! Seals as they are anchored outside: the record that is written, and the seal that is read back
from it. -/
namespace ArchGuard.Audit
open GoJson GoText GoStrconv JsonText

/-- A seal; its times are microseconds since the epoch. -/
structure Seal where
  organizationId : Uuid
  seqStart : GoInt
  seqEnd : GoInt
  headHash : Bytes
  sealedAt : GoInt
  keyId : GoString
  signature : Bytes
  deriving DecidableEq

/-- The wire form of a seal. -/
structure SealExport where
  organizationId : GoString
  seqStart : GoInt
  seqEnd : GoInt
  headHashHex : GoString
  sealedAtMicros : GoInt
  keyId : GoString
  signatureHex : GoString

/-- Where reading a wire form fails; what it wraps is the text of the cause. -/
inductive SealExportError
  | malformed | organizationId | headHash | signature
  deriving DecidableEq, Repr

def SealExportError.text (cause : String) : SealExportError → String
  | .malformed => "audit: desserialização do selo WORM falhou: " ++ cause
  | .organizationId => "audit: organization_id do selo WORM inválido: " ++ cause
  | .headHash => "audit: head_hash do selo WORM inválido: " ++ cause
  | .signature => "audit: signature do selo WORM inválido: " ++ cause

/-- The members of the struct in their order. -/
def SealExport.fields (exp : SealExport) : List (String × Json) := [
  ("organization_id", .str exp.organizationId),
  ("seq_start", .int exp.seqStart.1),
  ("seq_end", .int exp.seqEnd.1),
  ("head_hash_hex", .str exp.headHashHex),
  ("sealed_at_us", .int exp.sealedAtMicros.1),
  ("key_id", .str exp.keyId),
  ("signature_hex", .str exp.signatureHex)]

/-- `MarshalSealExport`; the encoder does not fail on strings and integers. -/
def marshalSealExport (s : Seal) : Bytes :=
  let exp : SealExport := {
    organizationId := utf8 s.organizationId.text
    seqStart := s.seqStart
    seqEnd := s.seqEnd
    headHashHex := utf8 (hexBytes s.headHash)
    sealedAtMicros := s.sealedAt
    keyId := s.keyId
    signatureHex := utf8 (hexBytes s.signature) }
  Bytes.ofString (String.ofList (encode JsonRecords.escapeHtml (.obj exp.fields)))

/-- A number that has to fit an `int64`. -/
def readInt64 (v : Value) : Option GoInt := do
  let n ← readInt v
  if h : InRange n then some ⟨n, h⟩ else none

/-- The member of a key; of several the last counts. -/
def lastField (fields : List (String × Value)) (key : String) : Value :=
  (fields.reverse.lookup key).getD .null

def SealExport.ofFields (fields : List (String × Value)) : Option SealExport := do
  some {
    organizationId := ← readString (lastField fields "organization_id")
    seqStart := ← readInt64 (lastField fields "seq_start")
    seqEnd := ← readInt64 (lastField fields "seq_end")
    headHashHex := ← readString (lastField fields "head_hash_hex")
    sealedAtMicros := ← readInt64 (lastField fields "sealed_at_us")
    keyId := ← readString (lastField fields "key_id")
    signatureHex := ← readString (lastField fields "signature_hex") }

/-- What `json.Unmarshal` leaves in the struct: null leaves its zero value. -/
def SealExport.ofValue : Value → Option SealExport
  | .null => SealExport.ofFields []
  | .obj fields => SealExport.ofFields fields
  | _ => none

def unmarshalSealExport (b : Bytes) : Except SealExportError Seal :=
  match (parse (toValid b)).bind SealExport.ofValue with
  | none => .error .malformed
  | some exp =>
    match Uuid.ofText (toValid exp.organizationId) with
    | none => .error .organizationId
    | some organizationId =>
      match Migration.hexDecode exp.headHashHex with
      | none => .error .headHash
      | some headHash =>
        match Migration.hexDecode exp.signatureHex with
        | none => .error .signature
        | some signature => .ok {
            organizationId := organizationId
            seqStart := exp.seqStart
            seqEnd := exp.seqEnd
            headHash := headHash
            sealedAt := exp.sealedAtMicros
            keyId := exp.keyId
            signature := signature }

/-- `SealContent`, on any `int64`. -/
def sealContent64 (org : Uuid) (seqStart seqEnd : GoInt) (headHash : Bytes)
    (sealedAtMicros : GoInt) : Except AuditError Bytes :=
  if org = Uuid.nil then .error (.invalidSeal "organização obrigatória")
  else if seqStart.1 < 1 ∨ seqEnd.1 < seqStart.1 then .error (.invalidSeal
    ("intervalo de seq inválido [" ++ toString seqStart.1 ++ "," ++ toString seqEnd.1 ++ "]"))
  else if headHash.length ≠ auditHashSize then
    .error (.invalidSeal "head_hash com tamanho incorreto")
  else .ok (Bytes.ofString (Json.obj [
    ("organization_id", .str org.text),
    ("seq_start", .int seqStart.1),
    ("seq_end", .int seqEnd.1),
    ("head_hash", .str (hexBytes headHash)),
    ("sealed_at_us", .int sealedAtMicros.1)]).render)

def Seal.content (s : Seal) : Except AuditError Bytes :=
  sealContent64 s.organizationId s.seqStart s.seqEnd s.headHash s.sealedAt

section Reading

theorem utf8_hexBytes (b : Bytes) : utf8 (hexBytes b) = Migration.hexEncode b := by
  have hdigit (n : ℕ) (h : n < 16) : String.utf8EncodeChar (hexDigit n) = [Migration.hexByte n] := by
    interval_cases n <;> rfl
  rw [utf8, hexBytes, String.toList_ofList, Migration.hexEncode, List.flatMap_assoc]
  apply List.flatMap_congr
  intro x _
  have hx : x.toNat < 256 := x.toNat_lt
  rw [List.flatMap_cons, List.flatMap_cons, List.flatMap_nil, hdigit _ (by omega),
    hdigit _ (Nat.mod_lt _ (by decide))]
  rfl

theorem hexDecode_hexBytes (b : Bytes) : Migration.hexDecode (utf8 (hexBytes b)) = some b := by
  rw [utf8_hexBytes, Migration.hexDecode_hexEncode]

theorem hexBytes_injective : Function.Injective hexBytes := by
  intro b c h
  apply Option.some.inj
  rw [← hexDecode_hexBytes b, ← hexDecode_hexBytes c, h]

theorem readInt64_num (n : GoInt) : readInt64 (.num n.1) = some n := dif_pos n.2

/-- A wire form is read back with its strings as UTF-8 has them. -/
theorem SealExport.ofValue_fields (exp : SealExport) :
    SealExport.ofValue (value (.obj exp.fields)) = some { exp with
      organizationId := coerced exp.organizationId
      headHashHex := coerced exp.headHashHex
      keyId := coerced exp.keyId
      signatureHex := coerced exp.signatureHex } := by
  have hvalue : value (.obj exp.fields) = .obj [
      ("organization_id", marshalString exp.organizationId), ("seq_start", .num exp.seqStart.1),
      ("seq_end", .num exp.seqEnd.1), ("head_hash_hex", marshalString exp.headHashHex),
      ("sealed_at_us", .num exp.sealedAtMicros.1), ("key_id", marshalString exp.keyId),
      ("signature_hex", marshalString exp.signatureHex)] := by
    rw [value, fieldValues_eq_map]
    simp only [SealExport.fields, List.map_cons, List.map_nil, value, marshalString]
  rw [hvalue, SealExport.ofValue]
  simp [SealExport.ofFields, lastField, List.lookup_cons, readInt64_num]

theorem unmarshal_marshal (s : Seal) :
    unmarshalSealExport (marshalSealExport s) = .ok { s with keyId := coerced s.keyId } := by
  have htext (t : String) : coerced (utf8 t) = utf8 t := coerced_of_valid (malformed_utf8 t)
  rw [unmarshalSealExport, marshalSealExport, Bytes.ofString, toValid_utf8,
    parse_encode JsonRecords.escaped_escapeHtml, Option.bind_some, SealExport.ofValue_fields]
  simp only [htext, toValid_utf8, Uuid.ofText_text, hexDecode_hexBytes]

end Reading

section Content

variable {org org' : Uuid} {seqStart seqEnd sealedAt seqStart' seqEnd' sealedAt' : GoInt}
  {headHash headHash' content : Bytes}

theorem content_of_ok (h : sealContent64 org seqStart seqEnd headHash sealedAt = .ok content) :
    content = Bytes.ofString (Json.obj [
      ("organization_id", .str org.text),
      ("seq_start", .int seqStart.1),
      ("seq_end", .int seqEnd.1),
      ("head_hash", .str (hexBytes headHash)),
      ("sealed_at_us", .int sealedAt.1)]).render := by
  unfold sealContent64 at h
  split_ifs at h
  exact (Except.ok.inj h).symm

theorem sealContent64_injective
    (h : sealContent64 org seqStart seqEnd headHash sealedAt = .ok content)
    (h' : sealContent64 org' seqStart' seqEnd' headHash' sealedAt' = .ok content) :
    org = org' ∧ seqStart = seqStart' ∧ seqEnd = seqEnd' ∧ headHash = headHash' ∧
      sealedAt = sealedAt' := by
  have hdenoted := denoted_of_render_eq (utf8_injective ((content_of_ok h).symm.trans (content_of_ok h')))
  have hmember := member_eq hdenoted (by simp) (by simp)
  refine ⟨?_, ?_, ?_, ?_, ?_⟩
  · exact Uuid.text_injective (text_eq (hmember "organization_id"))
  · exact Subtype.ext (int_eq (hmember "seq_start"))
  · exact Subtype.ext (int_eq (hmember "seq_end"))
  · exact hexBytes_injective (text_eq (hmember "head_hash"))
  · exact Subtype.ext (int_eq (hmember "sealed_at_us"))

end Content

/-- A seal survives its export with its signed content, and accepted arguments are what the content
says. -/
theorem sealExport_faithful :
    (∀ s : Seal, malformed s.keyId = 0 → unmarshalSealExport (marshalSealExport s) = .ok s ∧
      (unmarshalSealExport (marshalSealExport s)).map Seal.content = .ok s.content) ∧
    ∀ (org org' : Uuid) (seqStart seqEnd sealedAt seqStart' seqEnd' sealedAt' : GoInt)
      (headHash headHash' content : Bytes),
      sealContent64 org seqStart seqEnd headHash sealedAt = .ok content →
      sealContent64 org' seqStart' seqEnd' headHash' sealedAt' = .ok content →
      org = org' ∧ seqStart = seqStart' ∧ seqEnd = seqEnd' ∧ headHash = headHash' ∧
        sealedAt = sealedAt' := by
  constructor
  · intro s hkey
    have hread : unmarshalSealExport (marshalSealExport s) = .ok s := by
      rw [unmarshal_marshal, coerced_of_valid hkey]
    exact ⟨hread, by rw [hread]; rfl⟩
  · intro org org' seqStart seqEnd sealedAt seqStart' seqEnd' sealedAt' headHash headHash' content
      h h'
    exact sealContent64_injective h h'

/-- A seal up to the greatest number, and a key id that JSON has to escape. -/
theorem sealExport_faithful_last :
    let s : Seal := ⟨7#128, ⟨1, by decide⟩, ⟨2^63-1, by decide⟩, [0, 255], ⟨-5, by decide⟩,
      utf8 "<key>\n", [16]⟩
    unmarshalSealExport (marshalSealExport s) = .ok s :=
  (sealExport_faithful.1 _ (by decide +kernel)).1

end ArchGuard.Audit
