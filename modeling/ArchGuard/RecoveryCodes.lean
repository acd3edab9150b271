import ArchGuard.CredentialMigration

/-! The recovery codes of an identity: how a set of them is drawn and written for its holder, and
which of them an input is taken for. -/
namespace ArchGuard.RecoveryCodes
open GoMethod GoText Method

section Codes

/-- The alphabet of `base32.StdEncoding`. -/
def alphabet : List Char := "ABCDEFGHIJKLMNOPQRSTUVWXYZ234567".toList

/-- Five bytes are eight characters of five bits each. -/
def encodeGroup (b₀ b₁ b₂ b₃ b₄ : UInt8) : List Char :=
  let n := (((b₀.toNat*256+b₁.toNat)*256+b₂.toNat)*256+b₃.toNat)*256+b₄.toNat
  (List.range 8).map fun i => alphabet.getD (n/32^(7-i)%32) 'A'

/-- `EncodeToString` without padding. A rest of fewer than five bytes is filled with zeros, and the
characters stay that hold a bit of it. -/
def encodeBase32 : Bytes → List Char
  | b₀ :: b₁ :: b₂ :: b₃ :: b₄ :: rest => encodeGroup b₀ b₁ b₂ b₃ b₄ ++ encodeBase32 rest
  | [b₀, b₁, b₂, b₃] => (encodeGroup b₀ b₁ b₂ b₃ 0).take 7
  | [b₀, b₁, b₂] => (encodeGroup b₀ b₁ b₂ 0 0).take 5
  | [b₀, b₁] => (encodeGroup b₀ b₁ 0 0 0).take 4
  | [b₀] => (encodeGroup b₀ 0 0 0 0).take 2
  | [] => []

example : encodeBase32 (utf8 "foob") = "MZXW6YQ".toList := by decide +kernel

/-- How many bytes `range` steps over. -/
def width : Rune → ℕ
  | .char c => c.utf8Size
  | .malformed => 1

/-- The loop of `groupInFours`, from a byte offset. -/
def groupFrom : (i : ℕ) → List Rune → List Char
  | _, [] => []
  | i, r :: rs =>
    if 0 < i ∧ i % 4 = 0 then '-' :: r.replaced :: groupFrom (i+width r) rs
    else r.replaced :: groupFrom (i+width r) rs

def groupInFours (s : GoString) : GoString := utf8 (String.ofList (groupFrom 0 (runes s)))

def codeEntropyBytes : ℕ := 10

/-- What `rand.Read` leaves in the buffer. -/
abbrev Entropy := { b : Bytes // b.length = codeEntropyBytes }

variable (lower : Char → Char)

def codeOf (drawn : Entropy) : GoString :=
  groupInFours (toLower lower (utf8 (String.ofList (encodeBase32 drawn))))

end Codes

section Generate

def defaultRecoveryCodes : ℤ := 10

def minRecoveryCodes : ℤ := 1

def maxRecoveryCodes : ℤ := 50

inductive RecoveryError
  | outOfRange (n : ℤ)
  | entropy (detail : String)
  | credential (err : CredentialError)
  deriving DecidableEq, Repr

def RecoveryError.text : RecoveryError → String
  | .outOfRange n => "recovery: quantidade de códigos fora da faixa [" ++ toString minRecoveryCodes ++
      "," ++ toString maxRecoveryCodes ++ "]: " ++ toString n
  | .entropy detail => "recovery: geração de aleatoriedade falhou: " ++ detail
  | .credential err => err.text

abbrev Generating (α : Type) := Method Calls RecoveryError α

variable (lower : Char → Char) (w : Outside) (random : ℕ → Except String Entropy)
  (identityId : Uuid)

def newRecoveryCode (answer : Except String Entropy) : Generating GoString :=
  match answer with
  | .error detail => throw (.entropy detail)
  | .ok drawn => pure (codeOf lower drawn)

/-- The loop, whose next round is the `i`-th and draws the `i`-th answer of the random source. -/
def generateFrom : (i : ℕ) → (todo : ℕ) → Generating (List GoString × List Credential)
  | _, 0 => pure ([], [])
  | i, todo+1 => do
    let code ← newRecoveryCode lower (random i)
    let cred ← within id (fun _ c => c) RecoveryError.credential
      (newRecoveryCodeCredential w identityId (hashRecoveryCode lower code))
    let rest ← generateFrom (i+1) todo
    pure (code :: rest.1, cred :: rest.2)

/-- `GenerateRecoveryCodes`: the codes in the clear, and the credentials that carry their digests. -/
def generateRecoveryCodes (n : ℤ) : Generating (List GoString × List Credential) :=
  let n := if n = 0 then defaultRecoveryCodes else n
  do
    refuseIf (n < minRecoveryCodes ∨ maxRecoveryCodes < n) (.outOfRange n)
    generateFrom lower w random identityId 0 n.toNat

end Generate

section Normal

variable {lower : Char → Char}

/-- A string as `range` reads it, U+FFFD for a malformed byte. -/
def chars (s : GoString) : List Char := (runes s).map Rune.replaced

def normal (lower : Char → Char) (cs : List Char) : List Char :=
  (cs.map lower).filter fun c => !isSeparator c

theorem chars_utf8 (cs : List Char) : chars (utf8 (String.ofList cs)) = cs := by
  rw [chars, runes_utf8, String.toList_ofList, List.map_map]
  exact List.map_id cs

theorem toLower_eq (s : GoString) : toLower lower s = utf8 (String.ofList ((chars s).map lower)) := by
  rw [toLower, chars, List.map_map]
  rfl

theorem normalizeRecoveryCode_eq (s : GoString) :
    normalizeRecoveryCode lower s = utf8 (String.ofList (normal lower (chars s))) := by
  rw [normalizeRecoveryCode, toLower_eq]
  change utf8 (String.ofList ((chars (utf8 _)).filter _)) = _
  rw [chars_utf8]
  rfl

/-- `unicode.ToLower` on ASCII. -/
def LowersAscii (lower : Char → Char) : Prop := ∀ c : Char, c.toNat < 128 → lower c = c.toLower

theorem LowersAscii.separator (h : LowersAscii lower) {c : Char} (hc : isSeparator c = true) :
    lower c = c := by
  simp only [isSeparator, Bool.or_eq_true, decide_eq_true_eq] at hc
  rcases hc with (rfl | rfl) | rfl
  · exact h '-' (by decide)
  · exact h ' ' (by decide)
  · exact h '\t' (by decide)

theorem normal_separator (h : LowersAscii lower) {c : Char} (hc : isSeparator c = true)
    (cs : List Char) : normal lower (c :: cs) = normal lower cs := by
  rw [normal, List.map_cons, h.separator hc, List.filter_cons_of_neg (by rw [hc]; decide)]
  rfl

theorem normal_cons_congr {c d : Char} (h : lower c = lower d) {cs ds : List Char}
    (hrest : normal lower cs = normal lower ds) :
    normal lower (c :: cs) = normal lower (d :: ds) := by
  rw [normal, normal] at hrest ⊢
  rw [List.map_cons, List.map_cons, List.filter_cons, List.filter_cons, h, hrest]

theorem normal_groupFrom (h : LowersAscii lower) (i : ℕ) (rs : List Rune) :
    normal lower (groupFrom i rs) = normal lower (rs.map Rune.replaced) := by
  induction rs generalizing i with
  | nil => rfl
  | cons r rs ih =>
    rw [groupFrom, List.map_cons]
    split_ifs with hi
    · rw [normal_separator h rfl]
      exact normal_cons_congr rfl (ih _)
    · exact normal_cons_congr rfl (ih _)

theorem mem_alphabet_encodeGroup {b₀ b₁ b₂ b₃ b₄ : UInt8} {c : Char}
    (hc : c ∈ encodeGroup b₀ b₁ b₂ b₃ b₄) : c ∈ alphabet := by
  obtain ⟨i, -, rfl⟩ := List.mem_map.mp hc
  have hlt : (((((b₀.toNat*256+b₁.toNat)*256+b₂.toNat)*256+b₃.toNat)*256+b₄.toNat)/32^(7-i)) % 32 <
      alphabet.length := Nat.mod_lt _ (by decide)
  rw [List.getD_eq_getElem?_getD, List.getElem?_eq_getElem hlt]
  exact List.getElem_mem hlt

theorem mem_alphabet_encodeBase32 {b : Bytes} {c : Char} (hc : c ∈ encodeBase32 b) :
    c ∈ alphabet := by
  fun_induction encodeBase32 b with
  | case1 b₀ b₁ b₂ b₃ b₄ rest ih =>
    rcases List.mem_append.mp hc with hc | hc
    · exact mem_alphabet_encodeGroup hc
    · exact ih hc
  | case6 => exact absurd hc List.not_mem_nil
  | _ => exact mem_alphabet_encodeGroup (List.mem_of_mem_take hc)

theorem alphabet_eq : alphabet = ['A', 'B', 'C', 'D', 'E', 'F', 'G', 'H', 'I', 'J', 'K', 'L', 'M',
    'N', 'O', 'P', 'Q', 'R', 'S', 'T', 'U', 'V', 'W', 'X', 'Y', 'Z', '2', '3', '4', '5', '6', '7'] :=
  String.toList_ofList

theorem LowersAscii.alphabet (h : LowersAscii lower) {c : Char} (hc : c ∈ alphabet) :
    isSeparator (lower c) = false ∧ lower (lower c) = lower c := by
  have hall : ∀ c ∈ RecoveryCodes.alphabet, c.toNat < 128 ∧ c.toLower.toNat < 128 ∧
      isSeparator c.toLower = false ∧ c.toLower.toLower = c.toLower := by
    rw [alphabet_eq, ← List.forall_iff_forall_mem]
    decide
  obtain ⟨hascii, hascii', hsep, hagain⟩ := hall c hc
  rw [h c hascii, h c.toLower hascii']
  exact ⟨hsep, hagain⟩

theorem normalizeRecoveryCode_codeOf (h : LowersAscii lower) (drawn : Entropy) :
    normalizeRecoveryCode lower (codeOf lower drawn) =
      toLower lower (utf8 (String.ofList (encodeBase32 drawn))) := by
  rw [normalizeRecoveryCode_eq, codeOf, groupInFours, chars_utf8, normal_groupFrom h, ← chars,
    toLower_eq, chars_utf8, chars_utf8, normal, List.map_map]
  have hmap : (encodeBase32 drawn).map (lower ∘ lower) = (encodeBase32 drawn).map lower :=
    List.map_congr_left fun c hc => (h.alphabet (mem_alphabet_encodeBase32 hc)).2
  rw [hmap, List.filter_eq_self.mpr]
  intro c hc
  obtain ⟨d, hd, rfl⟩ := List.mem_map.mp hc
  rw [(h.alphabet (mem_alphabet_encodeBase32 hd)).1]
  rfl

def Issued (lower : Char → Char) (code : GoString) : Prop := ∃ drawn, code = codeOf lower drawn

theorem Issued.eq_of_normal (h : LowersAscii lower) {code code' : GoString}
    (hcode : Issued lower code) (hcode' : Issued lower code')
    (heq : normalizeRecoveryCode lower code = normalizeRecoveryCode lower code') : code = code' := by
  obtain ⟨drawn, hd⟩ := hcode
  obtain ⟨drawn', hd'⟩ := hcode'
  have hraw : toLower lower (utf8 (String.ofList (encodeBase32 drawn))) =
      toLower lower (utf8 (String.ofList (encodeBase32 drawn'))) := by
    calc toLower lower (utf8 (String.ofList (encodeBase32 drawn)))
        = normalizeRecoveryCode lower code := by rw [hd, normalizeRecoveryCode_codeOf h]
      _ = normalizeRecoveryCode lower code' := heq
      _ = toLower lower (utf8 (String.ofList (encodeBase32 drawn'))) := by
        rw [hd', normalizeRecoveryCode_codeOf h]
  rw [hd, hd', codeOf, codeOf, hraw]

/-- The same characters but for letter case, and for hyphens, blanks and tabs that were put in or
left out. -/
inductive Transcription (lower : Char → Char) : (input code : List Char) → Prop
  | done : Transcription lower [] []
  | letter {c d : Char} {cs ds : List Char} (h : lower c = lower d) :
    Transcription lower cs ds → Transcription lower (c :: cs) (d :: ds)
  | inserted {c : Char} {cs ds : List Char} (h : isSeparator c = true) :
    Transcription lower cs ds → Transcription lower (c :: cs) ds
  | removed {d : Char} {cs ds : List Char} (h : isSeparator d = true) :
    Transcription lower cs ds → Transcription lower cs (d :: ds)

def Transcribes (lower : Char → Char) (input code : GoString) : Prop :=
  Transcription lower (chars input) (chars code)

theorem Transcription.refl (cs : List Char) : Transcription lower cs cs := by
  induction cs with
  | nil => exact .done
  | cons c cs ih => exact .letter rfl ih

theorem Transcription.normal_eq (h : LowersAscii lower) {cs ds : List Char}
    (ht : Transcription lower cs ds) : normal lower cs = normal lower ds := by
  induction ht with
  | done => rfl
  | letter hc _ ih => exact normal_cons_congr hc ih
  | inserted hc _ ih => rw [normal_separator h hc, ih]
  | removed hd _ ih => rw [normal_separator h hd, ih]

theorem Transcribes.normalize_eq (h : LowersAscii lower) {input code : GoString}
    (ht : Transcribes lower input code) :
    normalizeRecoveryCode lower input = normalizeRecoveryCode lower code := by
  rw [normalizeRecoveryCode_eq, normalizeRecoveryCode_eq, ht.normal_eq h]

end Normal

section Generated

variable {lower : Char → Char} {w : Outside} {random : ℕ → Except String Entropy}
  {identityId : Uuid} {c c' : Calls} {codes : List GoString} {creds : List Credential}

/-- A code and the credential that was made for it. -/
structure Paired (lower : Char → Char) (code : GoString) (cred : Credential) : Prop where
  issued : Issued lower code
  type : cred.type = .recoveryCode
  verifier : cred.verifier = hashRecoveryCode lower code

theorem newRecoveryCode_ok {answer : Except String Entropy} {code : GoString}
    (h : (newRecoveryCode lower answer).call c = (.ok code, c')) : Issued lower code ∧ c' = c := by
  cases answer with
  | error detail => cases h
  | ok drawn =>
    obtain ⟨rfl, rfl⟩ := (pure_ok c).mp h
    exact ⟨⟨drawn, rfl⟩, rfl⟩

theorem generateFrom_ok {i todo : ℕ}
    (h : (generateFrom lower w random identityId i todo).call c = (.ok (codes, creds), c')) :
    List.Forall₂ (Paired lower) codes creds ∧ Migration.MintedAll w identityId c c' creds := by
  induction todo generalizing i c codes creds with
  | zero =>
    obtain ⟨hres, rfl⟩ := (pure_ok c).mp h
    cases hres
    exact ⟨.nil, Migration.mintedAll_nil le_rfl⟩
  | succ todo ih =>
    obtain ⟨code, d, hcode, htail⟩ := (bind_ok c).mp h
    obtain ⟨hissued, rfl⟩ := newRecoveryCode_ok hcode
    obtain ⟨cred, d', hcred, htail⟩ := (bind_ok d).mp htail
    obtain ⟨⟨codes', creds'⟩, d'', hrest, htail⟩ := (bind_ok d').mp htail
    obtain ⟨hres, rfl⟩ := (pure_ok d'').mp htail
    cases hres
    obtain ⟨e, hnew, rfl⟩ := within_ok.mp hcred
    obtain ⟨hminted, hverifier⟩ := newRecoveryCodeCredential_ok hnew
    obtain ⟨hpaired, hall⟩ := ih hrest
    exact ⟨.cons ⟨hissued, hminted.type, hverifier⟩ hpaired,
      (Migration.mintedAll_singleton hminted).append hall⟩

theorem generateRecoveryCodes_ok {n : ℤ}
    (h : (generateRecoveryCodes lower w random identityId n).call c = (.ok (codes, creds), c')) :
    List.Forall₂ (Paired lower) codes creds ∧ Migration.MintedAll w identityId c c' creds := by
  obtain ⟨-, h⟩ := (refuseIf_bind_ok c).mp h
  exact generateFrom_ok h

end Generated

section Match

variable {lower : Char → Char} {held : List Credential}

theorem matchRecoveryCode_filter (creds : List Credential) (input : GoString) :
    matchRecoveryCode lower creds input =
      matchRecoveryCode lower (creds.filter (·.type = .recoveryCode)) input := by
  have hstep (matched : Uuid) : creds.foldl (fun matched c =>
        if c.type ≠ .recoveryCode then matched
        else if c.verifier = hashRecoveryCode lower input then c.id else matched) matched =
      (creds.filter (·.type = .recoveryCode)).foldl (fun matched c =>
        if c.type ≠ .recoveryCode then matched
        else if c.verifier = hashRecoveryCode lower input then c.id else matched) matched := by
    induction creds generalizing matched with
    | nil => rfl
    | cons c creds ih =>
      by_cases ht : c.type = .recoveryCode
      · rw [List.filter_cons_of_pos (by simpa using ht), List.foldl_cons, List.foldl_cons, ih]
      · rw [List.filter_cons_of_neg (by simpa using ht), List.foldl_cons, if_pos ht, ih]
  rw [matchRecoveryCode, matchRecoveryCode]
  simp only [hstep]

theorem matchRecoveryCode_last {before after : List Credential} {cred : Credential}
    {input : GoString} (hsat : Satisfies lower input cred)
    (hafter : ∀ c ∈ after, ¬Satisfies lower input c) (hid : cred.id ≠ Uuid.nil) :
    matchRecoveryCode lower (before ++ cred :: after) input = .ok cred.id := by
  have hkeep (matched : Uuid) : after.foldl (fun matched c =>
      if c.type ≠ .recoveryCode then matched
      else if c.verifier = hashRecoveryCode lower input then c.id else matched) matched =
        matched := by
    induction after with
    | nil => rfl
    | cons c after ih =>
      obtain ⟨hc, hrest⟩ := List.forall_mem_cons.mp hafter
      rw [List.foldl_cons]
      by_cases ht : c.type = .recoveryCode
      · rw [if_neg (not_not.mpr ht), if_neg fun h => hc ⟨ht, h⟩]
        exact ih hrest
      · rw [if_pos ht]
        exact ih hrest
  rw [matchRecoveryCode]
  simp only [List.foldl_append, List.foldl_cons, hkeep]
  rw [if_neg (not_not.mpr hsat.1), if_pos hsat.2, if_neg hid]

theorem matchRecoveryCode_error {creds : List Credential} {input : GoString} {err : String}
    (h : matchRecoveryCode lower creds input = .error err) :
    err = "recovery: código não corresponde a nenhum código válido" := by
  simp only [matchRecoveryCode] at h
  split_ifs at h
  exact (Except.error.inj h).symm

def CollisionFree (texts : List Bytes) : Prop :=
  ∀ a ∈ texts, ∀ b ∈ texts, Sha256.sha256 a = Sha256.sha256 b → a = b

instance (texts : List Bytes) : Decidable (CollisionFree texts) :=
  inferInstanceAs (Decidable (∀ a ∈ texts, ∀ b ∈ texts, _ → _))

theorem Paired.satisfies_iff {input code : GoString} {cred : Credential}
    {texts : List GoString} (h : Paired lower code cred) (hinput : input ∈ texts)
    (hcode : code ∈ texts) (hfree : CollisionFree (texts.map (normalizeRecoveryCode lower))) :
    Satisfies lower input cred ↔
      normalizeRecoveryCode lower code = normalizeRecoveryCode lower input := by
  constructor
  · intro hsat
    apply hfree _ (List.mem_map_of_mem hcode) _ (List.mem_map_of_mem hinput)
    calc Sha256.sha256 (normalizeRecoveryCode lower code)
        = cred.verifier := h.verifier.symm
      _ = Sha256.sha256 (normalizeRecoveryCode lower input) := hsat.2
  · intro heq
    refine ⟨h.type, ?_⟩
    rw [h.verifier, hashRecoveryCode, hashRecoveryCode, heq]

/-- Of the codes of a set that are left, with whatever other factors: an input that transcribes one
is matched to the credential of that code, the last one where it was drawn twice; one that is
written like none of them is refused; and the credentials have different ids. -/
theorem matchRecoveryCode_issued (hlower : LowersAscii lower) {w : Outside} (hw : w.Fresh)
    {random : ℕ → Except String Entropy} {identityId : Uuid} {n : ℤ} {c c' : Calls}
    {codes : List GoString} {creds : List Credential}
    (hgenerate : (generateRecoveryCodes lower w random identityId n).call c =
      (.ok (codes, creds), c'))
    {left : List (GoString × Credential)} (hleft : left.Sublist (codes.zip creds))
    (hheld : held.filter (·.type = .recoveryCode) = left.map Prod.snd) :
    (∀ input, CollisionFree ((input :: left.map Prod.fst).map (normalizeRecoveryCode lower)) →
      (∀ before code cred after, left = before ++ (code, cred) :: after →
        (∀ p ∈ after, p.1 ≠ code) → Transcribes lower input code →
          matchRecoveryCode lower held input = .ok cred.id) ∧
      ((∀ p ∈ left, normalizeRecoveryCode lower p.1 ≠ normalizeRecoveryCode lower input) →
        matchRecoveryCode lower held input =
          .error "recovery: código não corresponde a nenhum código válido")) ∧
      (left.map (·.2.id)).Nodup := by
  obtain ⟨hpaired, hminted⟩ := generateRecoveryCodes_ok hgenerate
  have hall : ∀ p ∈ left, Paired lower p.1 p.2 := fun p hp =>
    List.forall₂_zip hpaired (hleft.subset hp)
  have hids : ∀ p ∈ left, p.2.id ≠ Uuid.nil := by
    intro p hp hnil
    obtain ⟨k, -, -, hk⟩ := hminted.drawn p.2 (List.of_mem_zip (hleft.subset hp)).2
    exact hw.ne_nil k (hnil ▸ hk)
  refine ⟨fun input hfree => ?_, ?_⟩
  · have hsat : ∀ p ∈ left, Satisfies lower input p.2 ↔
        normalizeRecoveryCode lower p.1 = normalizeRecoveryCode lower input := fun p hp =>
      (hall p hp).satisfies_iff List.mem_cons_self
        (List.mem_cons_of_mem _ (List.mem_map_of_mem hp)) hfree
    rw [matchRecoveryCode_filter, hheld]
    constructor
    · rintro before code cred after rfl hafter htranscribes
      have hmem : (code, cred) ∈ before ++ (code, cred) :: after := by simp
      have hnormal := htranscribes.normalize_eq hlower
      rw [List.map_append, List.map_cons]
      apply matchRecoveryCode_last ((hsat _ hmem).mpr hnormal.symm) ?_ (hids _ hmem)
      intro d hd hdsat
      obtain ⟨p, hp, rfl⟩ := List.mem_map.mp hd
      have hpmem : p ∈ before ++ (code, cred) :: after :=
        List.mem_append_right _ (List.mem_cons_of_mem _ hp)
      -- two codes with one normal form are one code
      apply hafter p hp
      apply (hall p hpmem).issued.eq_of_normal hlower (hall _ hmem).issued
      rw [(hsat p hpmem).mp hdsat, hnormal]
    · intro hnone
      have hids' : ∀ cred ∈ left.map Prod.snd, cred.id ≠ Uuid.nil := by
        intro cred hcred
        obtain ⟨p, hp, rfl⟩ := List.mem_map.mp hcred
        exact hids p hp
      rcases matchRecoveryCode_cases hids' input with ⟨⟨err, herr⟩, -⟩ | ⟨cred, hcred, hs, -⟩
      · rw [herr]
        exact congrArg Except.error (matchRecoveryCode_error herr)
      · obtain ⟨p, hp, rfl⟩ := List.mem_map.mp hcred
        exact absurd ((hsat p hp).mp hs) (hnone p hp)
  · have hsub : (left.map (·.2.id)).Sublist (creds.map (·.id)) := by
      have hsnd : (left.map Prod.snd).Sublist creds := by
        have hzip := hleft.map Prod.snd
        rwa [List.map_snd_zip hpaired.length_eq.ge] at hzip
      have hmap := hsnd.map (·.id)
      rwa [List.map_map] at hmap
    exact hsub.nodup (hminted.nodup hw)

end Match

namespace Sample

/-- A random source whose draws repeat one byte, which grows from draw to draw. -/
def random (step i : ℕ) : Except String Entropy :=
  .ok ⟨List.replicate codeEntropyBytes (UInt8.ofNat (i*step)), List.length_replicate⟩

def credential (id : Uuid) (raw : String) : Credential :=
  ⟨id, 9, .recoveryCode, .aal2, Sha256.sha256 (utf8 raw), [], [], [], []⟩

def codes : List (GoString × Credential) := [
  (utf8 "aaaa-aaaa-aaaa-aaaa", credential 1 "aaaaaaaaaaaaaaaa"),
  (utf8 "ceir-ceir-ceir-ceir", credential 2 "ceirceirceirceir")]

theorem generated : (generateRecoveryCodes Char.toLower Migration.Sample.outside (random 17) 9
    2).call ⟨0, 0, 0⟩ = (.ok (codes.map Prod.fst, codes.map Prod.snd), ⟨2, 0, 0⟩) := by
  decide +kernel

/-- What the identity holds: the two codes, and a password. -/
def held : List Credential :=
  ⟨7, 9, .password, .aal1, Sha256.sha256 (utf8 "aaaaaaaaaaaaaaaa"), [], [], [], []⟩ ::
    codes.map Prod.snd

def input : GoString := utf8 "C eir-ceir-ceir-ceir"

theorem input_transcribes : Transcribes Char.toLower input (utf8 "ceir-ceir-ceir-ceir") := by
  have hinput : chars input = 'C' :: ' ' :: "eir-ceir-ceir-ceir".toList := by decide
  have hcode : chars (utf8 "ceir-ceir-ceir-ceir") = 'c' :: "eir-ceir-ceir-ceir".toList := by
    decide
  rw [Transcribes, hinput, hcode]
  exact .letter rfl (.inserted rfl (Transcription.refl _))

end Sample

theorem matchRecoveryCode_second :
    matchRecoveryCode Char.toLower Sample.held Sample.input = .ok 2 := by
  have hlower : LowersAscii Char.toLower := fun _ _ => rfl
  have hheld : Sample.held.filter (·.type = .recoveryCode) = Sample.codes.map Prod.snd := by
    decide +kernel
  have hissued := matchRecoveryCode_issued hlower Migration.Sample.outside_fresh Sample.generated
    (List.Sublist.refl Sample.codes) hheld
  apply (hissued.1 Sample.input (by decide +kernel)).1 [Sample.codes.head (List.cons_ne_nil _ _)]
    (utf8 "ceir-ceir-ceir-ceir") (Sample.credential 2 "ceirceirceirceir") [] rfl
  · exact fun p hp => absurd hp List.not_mem_nil
  · exact Sample.input_transcribes

/-- Where the random source repeats itself, a code is matched to the credential of the other draw. -/
theorem repeated_draw : ∃ code first second c', first.id ≠ second.id ∧
    (generateRecoveryCodes Char.toLower Migration.Sample.outside (Sample.random 0) 9 2).call
      ⟨0, 0, 0⟩ = (.ok ([code, code], [first, second]), c') ∧
    Transcribes Char.toLower code code ∧
    matchRecoveryCode Char.toLower [first, second] code ≠ .ok first.id := by
  refine ⟨utf8 "aaaa-aaaa-aaaa-aaaa", Sample.credential 1 "aaaaaaaaaaaaaaaa",
    Sample.credential 2 "aaaaaaaaaaaaaaaa", ⟨2, 0, 0⟩, by decide, by decide +kernel,
    Transcription.refl _, by decide +kernel⟩

end ArchGuard.RecoveryCodes
