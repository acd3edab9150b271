import ArchGuard.IdentityFusion

/-! Cipher block chaining with PKCS #7 padding, and the passwords that a login page sends in it. -/
namespace BlockChaining

abbrev Bytes := List UInt8

structure BlockCipher where
  size : ℕ
  size_pos : 0 < size
  /-- The padding counts up to a block in one byte. -/
  size_lt : size < 256
  encrypt : Bytes → Bytes
  decrypt : Bytes → Bytes
  length_encrypt : ∀ b, b.length = size → (encrypt b).length = size
  decrypt_encrypt : ∀ b, b.length = size → decrypt (encrypt b) = b

def xorBytes (a b : Bytes) : Bytes := List.zipWith (· ^^^ ·) a b

variable (c : BlockCipher)

/-- So many blocks, each decrypted and combined with the one before it. -/
def decryptBlocks : (blocks : ℕ) → (iv src : Bytes) → Bytes
  | 0, _, _ => []
  | n+1, iv, src =>
    xorBytes (c.decrypt (src.take c.size)) iv ++
      decryptBlocks n (src.take c.size) (src.drop c.size)

def encryptBlocks : (blocks : ℕ) → (iv src : Bytes) → Bytes
  | 0, _, _ => []
  | n+1, iv, src =>
    let b := c.encrypt (xorBytes (src.take c.size) iv)
    b ++ encryptBlocks n b (src.drop c.size)

/-- The count of the bytes that fill the last block, as each of these bytes. -/
def padding (s : Bytes) : ℕ := c.size - s.length%c.size

def pad (s : Bytes) : Bytes := s ++ List.replicate (padding c s) (UInt8.ofNat (padding c s))

/-- As many bytes off the end as the last one says, if there are so many. -/
def unpad (s : Bytes) : Option Bytes :=
  match s.getLast? with
  | none => some s
  | some last => if last.toNat ≤ s.length then some (s.take (s.length - last.toNat)) else none

theorem length_xorBytes {a b : Bytes} (h : a.length = b.length) : (xorBytes a b).length = b.length := by
  rw [xorBytes, List.length_zipWith, h, Nat.min_self]

theorem xorBytes_cancel {a b : Bytes} (h : a.length = b.length) : xorBytes (xorBytes a b) b = a := by
  induction a generalizing b with
  | nil => rfl
  | cons x a ih =>
    cases b with
    | nil => cases h
    | cons y b =>
      have hlen : a.length = b.length := Nat.succ.inj h
      have hxor : x ^^^ y ^^^ y = x := by rw [UInt8.xor_assoc, UInt8.xor_self, UInt8.xor_zero]
      exact congrArg₂ List.cons hxor (ih hlen)

theorem length_take_block {n : ℕ} {src : Bytes} (hsrc : src.length = (n+1)*c.size) :
    (src.take c.size).length = c.size := by
  apply List.length_take_of_le
  rw [hsrc]
  exact Nat.le_mul_of_pos_left _ n.succ_pos

theorem length_drop_block {n : ℕ} {src : Bytes} (hsrc : src.length = (n+1)*c.size) :
    (src.drop c.size).length = n*c.size := by
  rw [List.length_drop, hsrc, Nat.succ_mul, Nat.add_sub_cancel]

theorem length_encryptBlocks {n : ℕ} {iv src : Bytes} (hiv : iv.length = c.size)
    (hsrc : src.length = n*c.size) : (encryptBlocks c n iv src).length = n*c.size := by
  induction n generalizing iv src with
  | zero => rw [Nat.zero_mul]; rfl
  | succ n ih =>
    have htake := length_take_block c hsrc
    have hblock : (c.encrypt (xorBytes (src.take c.size) iv)).length = c.size := by
      apply c.length_encrypt
      rw [length_xorBytes (htake.trans hiv.symm), hiv]
    rw [encryptBlocks, List.length_append, hblock, ih hblock (length_drop_block c hsrc), Nat.succ_mul, Nat.add_comm]

theorem decryptBlocks_encryptBlocks {n : ℕ} {iv src : Bytes} (hiv : iv.length = c.size)
    (hsrc : src.length = n*c.size) : decryptBlocks c n iv (encryptBlocks c n iv src) = src := by
  induction n generalizing iv src with
  | zero =>
    rw [Nat.zero_mul] at hsrc
    rw [List.length_eq_zero_iff.mp hsrc]
    rfl
  | succ n ih =>
    have htake := length_take_block c hsrc
    have hxor : (xorBytes (src.take c.size) iv).length = c.size := by
      rw [length_xorBytes (htake.trans hiv.symm), hiv]
    have hblock := c.length_encrypt _ hxor
    rw [encryptBlocks, decryptBlocks, List.take_left' hblock, List.drop_left' hblock, ih hblock (length_drop_block c hsrc),
      c.decrypt_encrypt _ hxor, xorBytes_cancel (htake.trans hiv.symm), List.take_append_drop]

theorem padding_bounds (s : Bytes) : 0 < padding c s ∧ padding c s ≤ c.size := by
  have hmod := Nat.mod_lt s.length c.size_pos
  rw [padding]
  omega

theorem length_pad (s : Bytes) : (pad c s).length = (s.length/c.size + 1)*c.size := by
  have hmod := Nat.mod_lt s.length c.size_pos
  have hdiv := Nat.div_add_mod s.length c.size
  rw [pad, List.length_append, List.length_replicate, padding, Nat.succ_mul, Nat.mul_comm]
  omega

theorem unpad_pad (s : Bytes) : unpad (pad c s) = some s := by
  obtain ⟨hpos, hle⟩ := padding_bounds c s
  have hbyte : (UInt8.ofNat (padding c s)).toNat = padding c s :=
    UInt8.toNat_ofNat_of_lt (lt_of_le_of_lt hle c.size_lt)
  have hlast : (pad c s).getLast? = some (UInt8.ofNat (padding c s)) := by
    rw [pad, List.getLast?_append, List.getLast?_replicate, if_neg hpos.ne']
    rfl
  have hlen : (pad c s).length = s.length + padding c s := by
    rw [pad, List.length_append, List.length_replicate]
  simp only [unpad, hlast, hbyte, hlen, if_pos (Nat.le_add_left _ _), Nat.add_sub_cancel, Option.some.injEq]
  exact List.take_left

end BlockChaining

namespace ArchGuard.Obfuscator
open BlockChaining GoText
open Migration (hexDecode hexEncode hexDecode_hexEncode)

/-- The block ciphers of `crypto/des` and `crypto/aes`. -/
structure Ciphers where
  des : Bytes → BlockCipher
  aes : Bytes → BlockCipher

inductive ObfuscatorError
  | invalidHex
  | keySize
  | shortCiphertext (length : ℕ)
  | unsupported (type : GoString)
  deriving DecidableEq, Repr

/-- Library errors apart. -/
def ObfuscatorError.text : ObfuscatorError → Option GoString
  | .invalidHex => none
  | .keySize => none
  | .shortCiphertext length => some (utf8 ("the password ciphertext should contain a random " ++
      "hexadecimal string of length " ++ toString length ++ " at the beginning"))
  | .unsupported type => some (utf8 "unsupported password obfuscator type: " ++ type)

inductive Outcome
  | value (password : GoString)
  | error (err : ObfuscatorError)
  | panic
  deriving DecidableEq, Repr

variable (ciphers : Ciphers)

/-- `des.NewCipher` and `aes.NewCipher`, which check the length of the key. -/
def newCipher (type : GoString) (key : Bytes) : Option BlockCipher :=
  if type = utf8 "DES" then if key.length = 8 then some (ciphers.des key) else none
  else if key.length ∈ [16, 24, 32] then some (ciphers.aes key) else none

/-- What follows the initialization vector, decrypted: `CryptBlocks`, which panics where it is not
whole blocks. -/
def cryptBlocks (block : BlockCipher) (iv src : Bytes) : Option Bytes :=
  if src.length%block.size ≠ 0 then none
  else some (decryptBlocks block (src.length/block.size) iv src)

/-- `unPaddingPkcs7` slices, and panics where more is to be cut off than there is. -/
def decryptDesOrAes (passwordCipher : GoString) (block : BlockCipher) : Outcome :=
  match hexDecode passwordCipher with
  | none => .error .invalidHex
  | some bytes =>
    if bytes.length < block.size then .error (.shortCiphertext (block.size*2))
    else
      match (cryptBlocks block (bytes.take block.size) (bytes.drop block.size)).bind unpad with
      | none => .panic
      | some password => .value password

def getUnobfuscatedPassword (type key passwordCipher : GoString) : Outcome :=
  if type = utf8 "Plain" ∨ type = [] then .value passwordCipher
  else if type = utf8 "DES" ∨ type = utf8 "AES" then
    match hexDecode key with
    | none => .error .invalidHex
    | some key =>
      match newCipher ciphers type key with
      | none => .error .keySize
      | some block => decryptDesOrAes passwordCipher block
  else .error (.unsupported type)

/-- What follows the initialization vector is whole blocks, and decrypted it is empty or not shorter
than its last byte says. -/
def Unpads (block : BlockCipher) (bytes : Bytes) : Prop :=
  (bytes.length - block.size)%block.size = 0 ∧
    ∀ text, text = decryptBlocks block ((bytes.length - block.size)/block.size)
        (bytes.take block.size) (bytes.drop block.size) →
      ∀ last, text.getLast? = some last → last.toNat ≤ text.length

/-- What is decrypted at all can be unpadded. -/
def Fits (type key passwordCipher : GoString) : Prop :=
  type = utf8 "DES" ∨ type = utf8 "AES" → ∀ k block bytes, hexDecode key = some k →
    newCipher ciphers type k = some block → hexDecode passwordCipher = some bytes →
      block.size ≤ bytes.length → Unpads block bytes

theorem unpad_eq_none (s : Bytes) :
    unpad s = none ↔ ∃ last, s.getLast? = some last ∧ s.length < last.toNat := by
  rw [unpad]
  cases hs : s.getLast? with
  | none => simp
  | some last => simp

theorem unpads_iff (block : BlockCipher) (bytes : Bytes) :
    (cryptBlocks block (bytes.take block.size) (bytes.drop block.size)).bind unpad ≠ none ↔
      Unpads block bytes := by
  rw [cryptBlocks, Unpads, List.length_drop]
  by_cases hmod : (bytes.length - block.size)%block.size = 0
  · rw [if_neg (not_not.mpr hmod), Option.bind_some, Ne, unpad_eq_none]
    simp [hmod]
  · rw [if_pos hmod]
    exact iff_of_false (fun h => h rfl) fun h => hmod h.1

theorem decryptDesOrAes_panic_iff (passwordCipher : GoString) (block : BlockCipher) :
    decryptDesOrAes passwordCipher block ≠ .panic ↔ ∀ bytes, hexDecode passwordCipher = some bytes →
      block.size ≤ bytes.length → Unpads block bytes := by
  rw [decryptDesOrAes]
  cases hexDecode passwordCipher with
  | none => simp
  | some bytes =>
    simp only [Option.some.injEq, forall_eq']
    by_cases hlen : bytes.length < block.size
    · simp [hlen, Nat.not_le.mpr hlen]
    · rw [if_neg hlen, imp_iff_right (not_lt.mp hlen), ← unpads_iff]
      cases (cryptBlocks block (bytes.take block.size) (bytes.drop block.size)).bind unpad with
      | none => simp
      | some password => simp

theorem decryptDesOrAes_encrypted (block : BlockCipher) {iv : Bytes} (hiv : iv.length = block.size)
    (password : GoString) :
    decryptDesOrAes (hexEncode (iv ++ encryptBlocks block (password.length/block.size + 1) iv
      (pad block password))) block = .value password := by
  have hpad := length_pad block password
  have hlen := length_encryptBlocks block hiv hpad
  have hwhole : (password.length/block.size + 1)*block.size%block.size = 0 := Nat.mul_mod_left _ _
  rw [decryptDesOrAes, hexDecode_hexEncode]
  simp only [List.length_append, hiv, List.take_left' hiv, List.drop_left' hiv]
  rw [if_neg (by omega), cryptBlocks, hlen, if_neg (not_not.mpr hwhole),
    Nat.mul_div_cancel _ block.size_pos, Option.bind_some, decryptBlocks_encryptBlocks block hiv hpad,
    unpad_pad]

/-- De-obfuscation panics on no input that fits, and on every other one; and it gives back each
password that was padded and encrypted behind an initialization vector. -/
theorem unobfuscation_iff :
    (∀ type key passwordCipher,
        getUnobfuscatedPassword ciphers type key passwordCipher ≠ .panic ↔
          Fits ciphers type key passwordCipher) ∧
      ∀ type, type = utf8 "DES" ∨ type = utf8 "AES" → ∀ k block,
        newCipher ciphers type k = some block → ∀ iv : Bytes, iv.length = block.size →
          ∀ password : GoString, getUnobfuscatedPassword ciphers type (hexEncode k)
            (hexEncode (iv ++ encryptBlocks block (password.length/block.size + 1) iv
              (pad block password))) = .value password := by
  have hcipher {type : GoString} (h : type = utf8 "DES" ∨ type = utf8 "AES") :
      ¬(type = utf8 "Plain" ∨ type = []) := by
    rcases h with rfl | rfl <;> decide
  constructor
  · intro type key passwordCipher
    rw [getUnobfuscatedPassword, Fits]
    by_cases htype : type = utf8 "DES" ∨ type = utf8 "AES"
    · rw [if_neg (hcipher htype), if_pos htype, imp_iff_right htype]
      cases hexDecode key with
      | none => simp
      | some k =>
        dsimp only
        cases hblock : newCipher ciphers type k with
        | none =>
          refine iff_of_true (by simp) fun k' block bytes hk hblock' => ?_
          rw [← Option.some.inj hk, hblock] at hblock'
          cases hblock'
        | some block =>
          rw [decryptDesOrAes_panic_iff]
          constructor
          · intro h k' block' bytes hk hblock'
            rw [← Option.some.inj hk, hblock] at hblock'
            rw [← Option.some.inj hblock']
            exact h bytes
          · exact fun h bytes => h k block bytes rfl hblock
    · rw [if_neg htype]
      refine iff_of_true ?_ fun h => absurd h htype
      split <;> simp
  · intro type htype k block hblock iv hiv password
    rw [getUnobfuscatedPassword, if_neg (hcipher htype), if_pos htype, hexDecode_hexEncode]
    simp only [hblock]
    exact decryptDesOrAes_encrypted block hiv password

namespace Sample

def plainBlocks (size : ℕ) (h0 : 0 < size) (h1 : size < 256) : BlockCipher :=
  ⟨size, h0, h1, id, id, fun _ h => h, fun _ _ => rfl⟩

/-- Ciphers of the right block sizes, which the input below never reaches. -/
def blockSizes : Ciphers :=
  ⟨fun _ => plainBlocks 8 (by decide) (by decide), fun _ => plainBlocks 16 (by decide) (by decide)⟩

end Sample

/-- One byte after the initialization vector is no block. -/
theorem partial_block_panics :
    getUnobfuscatedPassword Sample.blockSizes (utf8 "AES") (hexEncode (List.replicate 16 0))
      (hexEncode (List.replicate 17 0)) = .panic := by
  decide

end ArchGuard.Obfuscator
