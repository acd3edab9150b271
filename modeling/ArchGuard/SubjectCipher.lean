import ArchGuard.AuditEvent
import ArchGuard.Digests
import ArchGuard.TransitionRun

/-! The keys of the titulars: personal data is encrypted under one key for each subject, and
erased by the destruction of that key. -/
namespace ArchGuard.KeyCustodian
open Audit TransitionRun

/-- A buffer of `n` bytes. -/
abbrev Buffer (n : ℕ) := { b : Bytes // b.length = n }

/-- `cipher.NewGCM` over the block cipher of a key: what `Seal` and `Open` do. -/
structure Aead where
  sealed : (key nonce plaintext : Bytes) → Bytes
  opened : (key nonce ciphertext : Bytes) → Option Bytes

/-- What a key and a nonce of the right sizes seal, they open. -/
def Aead.Correct (aead : Aead) : Prop :=
  ∀ (key : Buffer 32) (nonce : Buffer 12) (plaintext : Bytes),
    aead.opened key.1 nonce.1 (aead.sealed key.1 nonce.1 plaintext) = some plaintext

def nonceSize : ℕ := 12

inductive CipherError
  | weakDeploymentKey
  | subjectKeyDestroyed
  | subjectKeyMissing
  | keyDraw
  | nonceDraw
  | shortCiphertext
  | notOpened
  | erasureSubjectRequired
  | erasureNotAcknowledged
  deriving DecidableEq, Repr

def CipherError.text : CipherError → String
  | .weakDeploymentKey => "keycustodian: chave de deployment fraca (< 256 bits)"
  | .subjectKeyDestroyed =>
    "subject_cipher: chave do titular destruída — dado irrecuperável (crypto-shredding)"
  | .subjectKeyMissing => "subject_cipher: nenhuma chave para o titular"
  | .keyDraw => "keycustodian: geração de chave do titular falhou"
  | .nonceDraw => "keycustodian: geração de nonce falhou"
  | .shortCiphertext => "keycustodian: ciphertext curto demais"
  | .notOpened => "keycustodian: decifragem do titular falhou"
  | .erasureSubjectRequired => "erasure: titular obrigatório"
  | .erasureNotAcknowledged =>
    "erasure: eliminação exige confirmação explícita da irreversibilidade"

/-- The custodian in process memory; every key of a subject has 256 bits. -/
structure Provisional where
  deploymentKey : Bytes
  subjectKeys : String → Option (Buffer 32)
  destroyed : String → Bool

def minDeploymentKeyBytes : ℕ := 32

def newProvisional (deploymentKey : Bytes) : Except CipherError Provisional :=
  if deploymentKey.length < minDeploymentKeyBytes then .error .weakDeploymentKey
  else .ok ⟨deploymentKey, fun _ => none, fun _ => false⟩

structure ErasureRequest where
  subjectId : String
  organizationId : Uuid
  operatorSubject : String
  acknowledgedIrreversible : Bool
  deriving DecidableEq, Repr

def ErasureRequest.validate (r : ErasureRequest) : Except CipherError Unit :=
  if r.subjectId = "" then .error .erasureSubjectRequired
  else if !r.acknowledgedIrreversible then .error .erasureNotAcknowledged
  else .ok ()

def buildErasureAuditInput (r : ErasureRequest) : AuditEventInput where
  organizationId := r.organizationId
  action := "subject.erasure"
  actor := .mk r.operatorSubject none none none
  outcome := .allowed
  target := ⟨"subject", r.subjectId, "eliminação de titular (crypto-shredding)"⟩
  reason := "eliminação irreversível dos dados pessoais do titular por destruição da chave (ADR-0014)"
  context := ⟨[], [], "L3", none, [], []⟩

section Operations

variable (aead : Aead) (p : Provisional)

/-- `EncryptForSubject`; `key` and `nonce` are what the random source gives, if it does. The
key of a first use stays also where the nonce cannot be drawn. -/
def encryptForSubject (subjectId : String) (plaintext : Bytes) (key : Option (Buffer 32))
    (nonce : Option (Buffer 12)) : Except CipherError Bytes × Provisional :=
  if p.destroyed subjectId then (.error .subjectKeyDestroyed, p)
  else
    let sealWith (key : Buffer 32) (p : Provisional) : Except CipherError Bytes × Provisional :=
      match nonce with
      | none => (.error .nonceDraw, p)
      | some nonce => (.ok (nonce.1 ++ aead.sealed key.1 nonce.1 plaintext), p)
    match p.subjectKeys subjectId with
    | some key => sealWith key p
    | none =>
      match key with
      | none => (.error .keyDraw, p)
      | some key =>
        sealWith key { p with subjectKeys := Function.update p.subjectKeys subjectId (some key) }

def decryptForSubject (subjectId : String) (ciphertext : Bytes) : Except CipherError Bytes :=
  if p.destroyed subjectId then .error .subjectKeyDestroyed
  else match p.subjectKeys subjectId with
    | none => .error .subjectKeyMissing
    | some key =>
      if ciphertext.length < nonceSize then .error .shortCiphertext
      else match aead.opened key.1 (ciphertext.take nonceSize) (ciphertext.drop nonceSize) with
        | none => .error .notOpened
        | some plaintext => .ok plaintext

/-- The key is zeroed and removed, and the subject marked. -/
def destroySubjectKey (subjectId : String) : Provisional :=
  { p with
    subjectKeys := Function.update p.subjectKeys subjectId none
    destroyed := Function.update p.destroyed subjectId true }

def eraseSubject (r : ErasureRequest) : Except CipherError AuditEventInput × Provisional :=
  match r.validate with
  | .error err => (.error err, p)
  | .ok () => (.ok (buildErasureAuditInput r), destroySubjectKey p r.subjectId)

end Operations

/-- A call of the cipher, with what the random source gives it. -/
inductive CipherOp
  | encrypt (subjectId : String) (plaintext : Bytes) (key : Option (Buffer 32))
    (nonce : Option (Buffer 12))
  | decrypt (subjectId : String) (ciphertext : Bytes)
  | destroy (subjectId : String)
  | erase (r : ErasureRequest)

/-- What a call returns: the bytes of an encryption or a decryption, or the record of an erasure. -/
inductive CipherOutput
  | bytes (b : Bytes)
  | destroyed
  | erased (record : AuditEventInput)

def CipherOp.subject : CipherOp → String
  | .encrypt s _ _ _ => s
  | .decrypt s _ => s
  | .destroy s => s
  | .erase r => r.subjectId

/-- The calls that destroy a key: an erasure only where its request is valid. -/
def CipherOp.destroys : CipherOp → Bool
  | .destroy _ => true
  | .erase r => r.validate.isOk
  | _ => false

section Runs

variable (aead : Aead)

/-- One call, under the lock of the custodian. -/
def CipherOp.call (p : Provisional) : CipherOp → Except CipherError CipherOutput × Provisional
  | .encrypt s plaintext key nonce =>
    let (r, p') := encryptForSubject aead p s plaintext key nonce
    (r.map .bytes, p')
  | .decrypt s ciphertext => ((decryptForSubject aead p s ciphertext).map .bytes, p)
  | .destroy s => (.ok .destroyed, destroySubjectKey p s)
  | .erase r =>
    let (r, p') := eraseSubject p r
    (r.map .erased, p')

def after (p : Provisional) (ops : List CipherOp) : Provisional :=
  ops.foldl (fun p op => (op.call aead p).2) p

/-- What a call returns after a run of others. -/
def result (p : Provisional) (ops : List CipherOp) (op : CipherOp) : Except CipherError CipherOutput :=
  (op.call aead (after aead p ops)).1

variable {aead} {p p' : Provisional} {s : String}

theorem after_append (p : Provisional) (ops ops' : List CipherOp) :
    after aead p (ops ++ ops') = after aead (after aead p ops) ops' := List.foldl_append ..

theorem result_append (p : Provisional) (ops ops' : List CipherOp) (op : CipherOp) :
    result aead p (ops ++ ops') op = result aead (after aead p ops) ops' op := by
  rw [result, after_append, result]

/-- What the custodian keeps of one subject. -/
def Provisional.of (p : Provisional) (s : String) : Option (Buffer 32) × Bool :=
  (p.subjectKeys s, p.destroyed s)

theorem destroySubjectKey_of (p : Provisional) (s : String) :
    (destroySubjectKey p s).of s = (none, true) :=
  Prod.ext (Function.update_self ..) (Function.update_self ..)

theorem call_other {op : CipherOp} (h : op.subject ≠ s) : (op.call aead p).2.of s = p.of s := by
  have hs : s ≠ op.subject := h.symm
  cases op with
  | encrypt t plaintext key nonce =>
    have hup (k : Buffer 32) : Function.update p.subjectKeys t (some k) s = p.subjectKeys s :=
      Function.update_of_ne hs ..
    simp only [CipherOp.call, encryptForSubject]
    split
    · rfl
    cases p.subjectKeys t with
    | some k => cases nonce <;> rfl
    | none =>
      cases key with
      | none => rfl
      | some k => cases nonce <;> exact Prod.ext (hup k) rfl
  | decrypt t ciphertext => rfl
  | destroy t =>
    exact Prod.ext (Function.update_of_ne hs ..) (Function.update_of_ne hs ..)
  | erase r =>
    simp only [CipherOp.call, eraseSubject]
    cases r.validate with
    | error err => rfl
    | ok u => exact Prod.ext (Function.update_of_ne hs ..) (Function.update_of_ne hs ..)

theorem call_congr {op : CipherOp} (h : p.of op.subject = p'.of op.subject) :
    (op.call aead p).1 = (op.call aead p').1 ∧
      (op.call aead p).2.of op.subject = (op.call aead p').2.of op.subject := by
  obtain ⟨hkey, hdes⟩ := Prod.mk.inj h
  cases op with
  | encrypt t plaintext key nonce =>
    simp only [CipherOp.subject] at hkey hdes h
    simp only [CipherOp.call, CipherOp.subject, encryptForSubject, hkey, hdes]
    split
    · exact ⟨rfl, h⟩
    cases hk : p'.subjectKeys t with
    | some k => cases nonce <;> exact ⟨rfl, h⟩
    | none =>
      cases key with
      | none => exact ⟨rfl, h⟩
      | some k =>
        -- the first encryption for a subject stores the key, with or without a nonce to go on
        have hup : (Function.update p.subjectKeys t (some k) t, p.destroyed t) =
            (Function.update p'.subjectKeys t (some k) t, p'.destroyed t) := by
          rw [Function.update_self, Function.update_self, hdes]
        cases nonce <;> exact ⟨rfl, hup⟩
  | decrypt t ciphertext =>
    simp only [CipherOp.subject] at hkey hdes h
    refine ⟨?_, h⟩
    simp only [CipherOp.call, decryptForSubject, hkey, hdes]
  | destroy t =>
    exact ⟨rfl, (destroySubjectKey_of p t).trans (destroySubjectKey_of p' t).symm⟩
  | erase r =>
    simp only [CipherOp.call, eraseSubject]
    cases r.validate with
    | error err => exact ⟨rfl, h⟩
    | ok u => exact ⟨rfl, (destroySubjectKey_of p _).trans (destroySubjectKey_of p' _).symm⟩

theorem after_congr (h : p.of s = p'.of s) (ops : List CipherOp) :
    (after aead p ops).of s = (after aead p' ops).of s := by
  induction ops generalizing p p' with
  | nil => exact h
  | cons op ops ih =>
    apply ih
    by_cases hop : op.subject = s
    · subst hop
      exact (call_congr h).2
    · rw [call_other hop, call_other hop, h]

theorem call_destroyed (op : CipherOp) (h : p.of s = (none, true)) :
    (op.call aead p).2.of s = (none, true) := by
  by_cases hop : op.subject = s
  · subst hop
    obtain ⟨hkey, hdes⟩ := Prod.mk.inj h
    cases op with
    | encrypt t plaintext key nonce =>
      simp only [CipherOp.subject] at hdes h
      simp only [CipherOp.call, encryptForSubject, hdes, ↓reduceIte]
      exact h
    | decrypt t ciphertext => exact h
    | destroy t => exact destroySubjectKey_of p t
    | erase r =>
      simp only [CipherOp.call, eraseSubject]
      cases r.validate with
      | error err => exact h
      | ok u => exact destroySubjectKey_of p r.subjectId
  · rw [call_other hop, h]

theorem after_destroyed (h : p.of s = (none, true)) (ops : List CipherOp) :
    (after aead p ops).of s = (none, true) := by
  induction ops generalizing p with
  | nil => exact h
  | cons op ops ih => exact ih (call_destroyed op h)

theorem call_destroys {op : CipherOp} (h : op.destroys = true) :
    (op.call aead p).2.of op.subject = (none, true) := by
  cases op with
  | encrypt => cases h
  | decrypt => cases h
  | destroy t => exact destroySubjectKey_of p t
  | erase r =>
    simp only [CipherOp.call, eraseSubject]
    simp only [CipherOp.destroys] at h
    cases hv : r.validate with
    | error err =>
      rw [hv] at h
      cases h
    | ok u => exact destroySubjectKey_of p r.subjectId

theorem call_keeps_key {op : CipherOp} {k : Buffer 32} (h : p.of s = (some k, false))
    (hop : op.subject = s → op.destroys = false) : (op.call aead p).2.of s = (some k, false) := by
  by_cases hs : op.subject = s
  · have hd := hop hs
    subst hs
    obtain ⟨hkey, hdes⟩ := Prod.mk.inj h
    cases op with
    | encrypt t plaintext key nonce =>
      simp only [CipherOp.subject] at hkey hdes h
      simp only [CipherOp.call, encryptForSubject, hdes, hkey, Bool.false_eq_true, ↓reduceIte]
      cases nonce <;> exact h
    | decrypt t ciphertext => exact h
    | destroy t => cases hd
    | erase r =>
      simp only [CipherOp.call, eraseSubject]
      simp only [CipherOp.destroys] at hd
      cases hv : r.validate with
      | error err => exact h
      | ok u =>
        rw [hv] at hd
        cases hd
  · rw [call_other hs, h]

theorem after_keeps_key {k : Buffer 32} (h : p.of s = (some k, false)) {ops : List CipherOp}
    (hops : ∀ op ∈ ops, op.subject = s → op.destroys = false) :
    (after aead p ops).of s = (some k, false) := by
  induction ops generalizing p with
  | nil => exact h
  | cons op ops ih =>
    apply ih (call_keeps_key h (hops op List.mem_cons_self))
    exact fun op' hop' => hops op' (List.mem_cons_of_mem op hop')

theorem encrypt_ok {plaintext ciphertext : Bytes} {key : Option (Buffer 32)}
    {nonce : Option (Buffer 12)} (h : ((CipherOp.encrypt s plaintext key nonce).call aead p).1 =
      .ok (.bytes ciphertext)) :
    ∃ (k : Buffer 32) (n : Buffer 12), ciphertext = n.1 ++ aead.sealed k.1 n.1 plaintext ∧
      ((CipherOp.encrypt s plaintext key nonce).call aead p).2.of s = (some k, false) := by
  simp only [CipherOp.call, encryptForSubject] at h ⊢
  split at h
  · cases h
  rename_i hdes
  rw [if_neg hdes]
  have hdes : p.destroyed s = false := Bool.not_eq_true _ ▸ hdes
  cases hk : p.subjectKeys s with
  | some k =>
    rw [hk] at h
    cases nonce with
    | none => cases h
    | some n =>
      cases h
      exact ⟨k, n, rfl, Prod.ext hk hdes⟩
  -- the subject has no key yet: the one that was drawn is sealed under and stored
  | none =>
    rw [hk] at h
    cases key with
    | none => cases h
    | some k =>
      cases nonce with
      | none => cases h
      | some n =>
        cases h
        exact ⟨k, n, rfl, Prod.ext (Function.update_self ..) hdes⟩

theorem decrypt_of_key (haead : aead.Correct) {k : Buffer 32} (n : Buffer 12) (plaintext : Bytes)
    (h : p.of s = (some k, false)) :
    ((CipherOp.decrypt s (n.1 ++ aead.sealed k.1 n.1 plaintext)).call aead p).1 =
      .ok (.bytes plaintext) := by
  obtain ⟨hkey, hdes⟩ := Prod.mk.inj h
  have hlen : ¬(n.1 ++ aead.sealed k.1 n.1 plaintext).length < nonceSize := by
    rw [List.length_append, n.2, nonceSize]
    omega
  have htake : (n.1 ++ aead.sealed k.1 n.1 plaintext).take nonceSize = n.1 :=
    List.take_left' n.2
  have hdrop : (n.1 ++ aead.sealed k.1 n.1 plaintext).drop nonceSize =
      aead.sealed k.1 n.1 plaintext := List.drop_left' n.2
  simp only [CipherOp.call, decryptForSubject, hkey, hdes, if_neg hlen, htake, hdrop,
    haead k n plaintext, Bool.false_eq_true, ↓reduceIte]
  rfl

theorem call_refused {op : CipherOp} (h : p.of op.subject = (none, true))
    (hop : (∃ plaintext key nonce, op = .encrypt op.subject plaintext key nonce) ∨
      ∃ ciphertext, op = .decrypt op.subject ciphertext) :
    (op.call aead p).1 = .error .subjectKeyDestroyed := by
  obtain ⟨-, hdes⟩ := Prod.mk.inj h
  rcases hop with ⟨plaintext, key, nonce, he⟩ | ⟨ciphertext, he⟩
  · rw [he]
    simp only [CipherOp.call, encryptForSubject, hdes, ↓reduceIte]
    rfl
  · rw [he]
    simp only [CipherOp.call, decryptForSubject, hdes, ↓reduceIte]
    rfl

/-- Crypto-shredding, over every run of calls on a custodian: what was encrypted for a subject is
decrypted until the subject's key is destroyed, from then on every encryption and decryption for
the subject is refused, and the calls for the other subjects return what they return without the
destruction. -/
theorem crypto_shredding (haead : aead.Correct) (p₀ : Provisional) :
    (∀ pre mid s plaintext key nonce ciphertext,
      result aead p₀ pre (.encrypt s plaintext key nonce) = .ok (.bytes ciphertext) →
      (∀ op ∈ mid, op.subject = s → op.destroys = false) →
      result aead p₀ (pre ++ .encrypt s plaintext key nonce :: mid) (.decrypt s ciphertext) =
        .ok (.bytes plaintext)) ∧
    (∀ pre destruction mid plaintext key nonce ciphertext, destruction.destroys = true →
      result aead p₀ (pre ++ destruction :: mid)
          (.encrypt destruction.subject plaintext key nonce) = .error .subjectKeyDestroyed ∧
        result aead p₀ (pre ++ destruction :: mid) (.decrypt destruction.subject ciphertext) =
          .error .subjectKeyDestroyed) ∧
    ∀ pre destruction mid op, destruction.destroys = true → op.subject ≠ destruction.subject →
      result aead p₀ (pre ++ destruction :: mid) op = result aead p₀ (pre ++ mid) op := by
  refine ⟨?_, ?_, ?_⟩
  · intro pre mid s plaintext key nonce ciphertext henc hmid
    rw [result_append]
    obtain ⟨k, n, rfl, hkey⟩ := encrypt_ok henc
    exact decrypt_of_key haead n plaintext (after_keeps_key hkey hmid)
  · intro pre destruction mid plaintext key nonce ciphertext hdes
    rw [result_append, result_append]
    have hgone : (after aead (after aead p₀ pre) (destruction :: mid)).of destruction.subject =
        (none, true) := after_destroyed (call_destroys hdes) mid
    exact ⟨call_refused hgone (Or.inl ⟨_, _, _, rfl⟩), call_refused hgone (Or.inr ⟨_, rfl⟩)⟩
  · intro pre destruction mid op _ hop
    rw [result_append, result_append]
    exact (call_congr (after_congr (call_other hop.symm) mid)).1

end Runs

namespace Sample

def tag (key nonce plaintext : Bytes) : Bytes :=
  (Sha256.sha256 (key ++ nonce ++ plaintext)).take 16

/-- The plaintext with a tag of sixteen bytes, which is checked. -/
def tagged : Aead where
  sealed key nonce plaintext := plaintext ++ tag key nonce plaintext
  opened key nonce ciphertext :=
    let plaintext := ciphertext.take (ciphertext.length-16)
    if ciphertext.drop (ciphertext.length-16) = tag key nonce plaintext then some plaintext else none

theorem tagged_correct : tagged.Correct := by
  intro key nonce plaintext
  have htag : (tag key.1 nonce.1 plaintext).length = 16 := by
    rw [tag, List.length_take, Sha256.length_sha256]
    rfl
  have hlen : (plaintext ++ tag key.1 nonce.1 plaintext).length-16 = plaintext.length := by
    rw [List.length_append, htag]
    omega
  simp only [tagged, hlen, List.take_left, List.drop_left, ↓reduceIte]

def oneKey : Buffer 32 := ⟨List.replicate 32 1, rfl⟩

def oneNonce : Buffer 12 := ⟨List.replicate 12 2, rfl⟩

def custodian : Provisional := ⟨List.replicate 32 7, fun _ => none, fun _ => false⟩

def storeName (s : String) : CipherOp := .encrypt s [65, 110, 97] (some oneKey) (some oneNonce)

end Sample

open Sample in
/-- Two subjects, of which one is erased. -/
theorem crypto_shredding_two : newProvisional (List.replicate 32 7) = .ok custodian ∧
    (∀ ciphertext, result tagged custodian [] (storeName "ana") = .ok (.bytes ciphertext) →
      result tagged custodian [storeName "ana", storeName "rui"] (.decrypt "ana" ciphertext) =
        .ok (.bytes [65, 110, 97])) ∧
    result tagged custodian [storeName "ana", .destroy "ana"] (storeName "ana") =
      .error .subjectKeyDestroyed ∧
    result tagged custodian [storeName "ana", .destroy "ana"] (storeName "rui") =
      result tagged custodian [storeName "ana"] (storeName "rui") := by
  obtain ⟨hkept, hrefused, hothers⟩ := crypto_shredding tagged_correct custodian
  refine ⟨rfl, fun ciphertext h => ?_, ?_, ?_⟩
  · apply hkept [] [storeName "rui"] "ana" [65, 110, 97] _ _ ciphertext h
    intro op hop _
    obtain rfl := List.mem_singleton.mp hop
    rfl
  · exact (hrefused [storeName "ana"] (.destroy "ana") [] _ _ _ [] rfl).1
  · exact hothers [storeName "ana"] (.destroy "ana") [] (storeName "rui") rfl (by decide)

end ArchGuard.KeyCustodian
