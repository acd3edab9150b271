import ArchGuard.JsonText
import ArchGuard.SubjectCipher
import Mathlib.Data.List.AList

/-! The sealed key custodian of the development profile: named private keys in memory, and their
copy in a file, encrypted under the sealing material. -/
namespace ArchGuard.Keystore
open GoText GoJson KeyCustodian TransitionRun

abbrev Keys := AList fun _ : GoString => GoString

inductive FsFault
  | nonceDraw
  | mkdirAll
  /-- The temporary file is left in any state. -/
  | writeFile (left : Option Bytes)
  | rename
  deriving DecidableEq, Repr

inductive KeystoreError
  | sealingMaterialRequired
  | truncated
  | unsealFailed
  | unreadable
  | notPersisted (fault : FsFault)
  deriving DecidableEq, Repr

/-- The text; of a fault it is the system's. -/
def KeystoreError.text : KeystoreError → Option String
  | .sealingMaterialRequired =>
    some "keystore: sealing material is required and must be provided at boot"
  | .truncated => some "keystore: arquivo selado truncado"
  | .unsealFailed => some "keystore: unseal falhou — material incorreto ou arquivo adulterado"
  | .unreadable => some "keystore: conteúdo selado ilegível"
  | .notPersisted _ => none

structure SealedKeystore where
  keys : Keys
  /-- The sealed file, and the one that is renamed to it. -/
  file : Option Bytes
  tmp : Option Bytes

/-- The encoder writes a map in the order of its keys. -/
def sortedKeys (keys : Keys) : List (GoString × GoString) :=
  (keys.entries.map fun e => (e.1, e.2)).insertionSort fun a b => a.1 ≤ b.1

/-- `Marshal` of the keys; a malformed byte of a name is read back as U+FFFD. -/
def marshalKeys (keys : Keys) : Bytes :=
  utf8 (String.ofList (JsonText.encode JsonRecords.escapeHtml
    (.obj ((sortedKeys keys).map fun e => (toValid e.1, .str e.2)))))

/-- `Unmarshal` into a map of strings: of a name that comes twice the last member counts. -/
def readKeys : Value → Option Keys
  | .null => some ∅
  | .obj fields => fields.foldlM (fun keys f => (readString f.2).map (keys.insert (utf8 f.1))) ∅
  | _ => none

section Store

variable (aead : Aead) (material : Bytes)

def openKeystore (file : Option Bytes) : Except KeystoreError Keys :=
  if material = [] then .error .sealingMaterialRequired
  else match file with
    | none => .ok ∅
    | some raw =>
      if raw.length < nonceSize then .error .truncated
      else match aead.opened (Sha256.sha256 material) (raw.take nonceSize) (raw.drop nonceSize) with
        | none => .error .unsealFailed
        | some plaintext => match (JsonText.parse (toValid plaintext)).bind readKeys with
          | none => .error .unreadable
          | some keys => .ok keys

/-- What the world gives a call that persists: a nonce, and a fault. -/
structure World where
  nonce : Buffer 12
  fault : Option FsFault

def sealedKeys (nonce : Buffer 12) (keys : Keys) : Bytes :=
  nonce.1 ++ aead.sealed (Sha256.sha256 material) nonce.1 (marshalKeys keys)

def persistLocked (w : World) (s : SealedKeystore) : Except KeystoreError Unit × SealedKeystore :=
  match w.fault with
  | some .nonceDraw => (.error (.notPersisted .nonceDraw), s)
  | some .mkdirAll => (.error (.notPersisted .mkdirAll), s)
  | some (.writeFile left) => (.error (.notPersisted (.writeFile left)), { s with tmp := left })
  | some .rename =>
    (.error (.notPersisted .rename), { s with tmp := some (sealedKeys aead material w.nonce s.keys) })
  | none =>
    (.ok (), { s with file := some (sealedKeys aead material w.nonce s.keys), tmp := none })

def SealedKeystore.get (s : SealedKeystore) (name : GoString) : Option GoString := s.keys.lookup name

def put (name pem : GoString) (w : World) (s : SealedKeystore) :
    Except KeystoreError Unit × SealedKeystore :=
  persistLocked aead material w { s with keys := s.keys.insert name pem }

def delete (name : GoString) (w : World) (s : SealedKeystore) :
    Except KeystoreError Unit × SealedKeystore :=
  if s.get name = none then (.ok (), s)
  else persistLocked aead material w { s with keys := s.keys.erase name }

inductive Op
  | put (name pem : GoString) (w : World)
  | delete (name : GoString) (w : World)
  | get (name : GoString)
  /-- The process ends, and another opens the file. -/
  | reopen

/-- What an operation returns, and the store that it leaves. -/
def call (s : SealedKeystore) : Op → Except KeystoreError Unit × SealedKeystore
  | .put name pem w => put aead material name pem w s
  | .delete name w => delete aead material name w s
  | .get _ => (.ok (), s)
  | .reopen =>
    match openKeystore aead material s.file with
    | .ok keys => (.ok (), { s with keys := keys })
    | .error err => (.error err, s)

def exec (s : SealedKeystore) (op : Op) : Option SealedKeystore := some (call aead material s op).2

def fresh : SealedKeystore := ⟨∅, none, none⟩

/-- Opening the file gives what the live store would. -/
def Reopens (s : SealedKeystore) : Prop :=
  ∃ keys, openKeystore aead material s.file = .ok keys ∧ ∀ name, keys.lookup name = s.get name

/-- Along a run, an operation that fails changes no key, and every store reopens as it is. -/
structure Atomic (ops : List Op) : Prop where
  errors : ∀ pre op post s, ops = pre ++ op :: post → run (exec aead material) fresh pre = some s →
    ∀ err, (call aead material s op).1 = .error err →
      ∀ name, (call aead material s op).2.get name = s.get name
  reopens : ∀ pre post s, ops = pre ++ post → run (exec aead material) fresh pre = some s →
    Reopens aead material s

/-- A change that is not persisted is no change: the key is there already, or is not there; and what
is stored is valid UTF-8. -/
def Harmless (s : SealedKeystore) : Op → Prop
  | .put name pem w => malformed name = 0 ∧ malformed pem = 0 ∧
      (w.fault ≠ none → s.get name = some pem)
  | .delete name w => w.fault ≠ none → s.get name = none
  | .get _ => True
  | .reopen => True

instance (s : SealedKeystore) : DecidablePred (Harmless s)
  | .put name pem w => inferInstanceAs (Decidable (malformed name = 0 ∧ malformed pem = 0 ∧
      (w.fault ≠ none → s.get name = some pem)))
  | .delete name w => inferInstanceAs (Decidable (w.fault ≠ none → s.get name = none))
  | .get _ => isTrue trivial
  | .reopen => isTrue trivial

end Store

section Reading

/-- What the decoder makes of entries, one after the other. -/
def assign (keys : Keys) (entries : List (GoString × GoString)) : Keys :=
  entries.foldl (fun keys e => keys.insert e.1 e.2) keys

theorem lookup_assign {entries : List (GoString × GoString)} (hnodup : (entries.map Prod.fst).Nodup)
    (keys : Keys) (name pem : GoString) : (assign keys entries).lookup name = some pem ↔
      (name, pem) ∈ entries ∨ (name ∉ entries.map Prod.fst ∧ keys.lookup name = some pem) := by
  induction entries generalizing keys with
  | nil => simp [assign]
  | cons e entries ih =>
    obtain ⟨n, p⟩ := e
    rw [List.map_cons, List.nodup_cons] at hnodup
    have hstep : assign keys ((n, p) :: entries) = assign (keys.insert n p) entries := rfl
    rw [hstep, ih hnodup.2]
    have hmem : (name, pem) ∈ entries → name ∈ entries.map Prod.fst :=
      fun h => List.mem_map_of_mem h
    by_cases hname : name = n
    · subst hname
      rw [AList.lookup_insert]
      have hnot : (name, pem) ∉ entries := fun h => hnodup.1 (hmem h)
      simp [hnot, hnodup.1, eq_comm]
    · rw [AList.lookup_insert_ne hname]
      simp [hname]

theorem mem_sortedKeys {keys : Keys} {name pem : GoString} :
    (name, pem) ∈ sortedKeys keys ↔ keys.lookup name = some pem := by
  rw [sortedKeys, List.mem_insertionSort, List.mem_map, ← Option.mem_def, AList.mem_lookup_iff]
  constructor
  · rintro ⟨e, he, heq⟩
    obtain ⟨rfl, rfl⟩ := Prod.mk.inj heq
    exact he
  · exact fun h => ⟨_, h, rfl⟩

theorem nodup_sortedKeys (keys : Keys) : ((sortedKeys keys).map Prod.fst).Nodup := by
  have hperm := (List.perm_insertionSort (fun a b : GoString × GoString => a.1 ≤ b.1)
    (keys.entries.map fun e => (e.1, e.2))).map Prod.fst
  have hkeys : (keys.entries.map fun e => (e.1, e.2)).map Prod.fst = keys.keys := List.map_map
  rw [sortedKeys, hperm.nodup_iff, hkeys]
  exact keys.keys_nodup

/-- The entries as they travel through the text. -/
def coercedKeys (keys : Keys) : Keys :=
  assign ∅ ((sortedKeys keys).map fun e => (coerced e.1, coerced e.2))

theorem readKeys_marshalKeys (keys : Keys) :
    (JsonText.parse (toValid (marshalKeys keys))).bind readKeys = some (coercedKeys keys) := by
  rw [marshalKeys, toValid_utf8, JsonText.parse_encode JsonRecords.escaped_escapeHtml,
    Option.bind_some, JsonText.value, JsonText.fieldValues_eq_map, readKeys, coercedKeys, assign]
  generalize sortedKeys keys = entries
  generalize (∅ : Keys) = start
  induction entries generalizing start with
  | nil => rfl
  | cons e entries ih =>
    rw [List.map_cons, List.map_cons, List.map_cons, List.foldlM_cons, List.foldl_cons]
    exact ih (start.insert (coerced e.1) (coerced e.2))

def Valid (keys : Keys) : Prop :=
  ∀ name pem, keys.lookup name = some pem → malformed name = 0 ∧ malformed pem = 0

theorem valid_coercedKeys (keys : Keys) : Valid (coercedKeys keys) := by
  have hassign : ∀ (entries : List (GoString × GoString)) (start : Keys), Valid start →
      (∀ e ∈ entries, malformed e.1 = 0 ∧ malformed e.2 = 0) → Valid (assign start entries) := by
    intro entries
    induction entries with
    | nil => exact fun _ hstart _ => hstart
    | cons e entries ih =>
      intro start hstart hentries
      obtain ⟨he, hentries⟩ := List.forall_mem_cons.mp hentries
      refine ih (start.insert e.1 e.2) ?_ hentries
      intro name pem hlookup
      by_cases hname : name = e.1
      · subst hname
        rw [AList.lookup_insert] at hlookup
        exact Option.some.inj hlookup ▸ he
      · rw [AList.lookup_insert_ne hname] at hlookup
        exact hstart name pem hlookup
  refine hassign _ ∅ (fun name pem hlookup => ?_) ?_
  · rw [AList.lookup_empty] at hlookup
    cases hlookup
  · intro e he
    obtain ⟨e', -, rfl⟩ := List.mem_map.mp he
    exact ⟨malformed_coerced e'.1, malformed_coerced e'.2⟩

theorem lookup_coercedKeys_iff (keys : Keys) :
    (∀ name, (coercedKeys keys).lookup name = keys.lookup name) ↔ Valid keys := by
  constructor
  · intro h name pem hlookup
    exact valid_coercedKeys keys name pem (by rw [h, hlookup])
  · intro hvalid name
    have hsame : (sortedKeys keys).map (fun e => (coerced e.1, coerced e.2)) = sortedKeys keys := by
      conv_rhs => rw [← List.map_id (sortedKeys keys)]
      apply List.map_congr_left
      intro e he
      obtain ⟨hname, hpem⟩ := hvalid e.1 e.2 (mem_sortedKeys.mp he)
      rw [coerced_of_valid hname, coerced_of_valid hpem]
      rfl
    apply Option.ext
    intro pem
    rw [coercedKeys, hsame, lookup_assign (nodup_sortedKeys keys), mem_sortedKeys,
      AList.lookup_empty]
    simp

variable {aead : Aead} {material : Bytes}

theorem openKeystore_sealedKeys (haead : aead.Correct) (hmaterial : material ≠ []) (nonce : Buffer 12)
    (keys : Keys) :
    openKeystore aead material (some (sealedKeys aead material nonce keys)) = .ok (coercedKeys keys) := by
  have hlength : ¬ (sealedKeys aead material nonce keys).length < nonceSize := by
    rw [sealedKeys, List.length_append, nonce.2]
    exact Nat.not_lt.mpr (Nat.le_add_right 12 _)
  have htake : (sealedKeys aead material nonce keys).take nonceSize = nonce.1 :=
    List.take_left' nonce.2
  have hdrop : (sealedKeys aead material nonce keys).drop nonceSize =
      aead.sealed (Sha256.sha256 material) nonce.1 (marshalKeys keys) := List.drop_left' nonce.2
  have hopened := haead ⟨Sha256.sha256 material, Sha256.length_sha256 material⟩ nonce (marshalKeys keys)
  rw [openKeystore, if_neg hmaterial]
  simp only [if_neg hlength, htake, hdrop, hopened, readKeys_marshalKeys]

end Reading

section Steps

variable {aead : Aead} {material : Bytes} {s s' : SealedKeystore} {w : World} {name pem : GoString}
  {op : Op}

theorem persistLocked_cases (aead : Aead) (material : Bytes) (w : World) (s : SealedKeystore) :
    (w.fault = none ∧ (persistLocked aead material w s).1 = .ok () ∧
      (persistLocked aead material w s).2.keys = s.keys ∧
      (persistLocked aead material w s).2.file = some (sealedKeys aead material w.nonce s.keys)) ∨
    (w.fault ≠ none ∧ (persistLocked aead material w s).2.keys = s.keys ∧
      (persistLocked aead material w s).2.file = s.file) := by
  rw [persistLocked]
  cases w.fault with
  | none => exact Or.inl ⟨rfl, rfl, rfl, rfl⟩
  | some fault =>
    refine Or.inr ⟨Option.some_ne_none fault, ?_⟩
    cases fault with
    | nonceDraw => exact ⟨rfl, rfl⟩
    | mkdirAll => exact ⟨rfl, rfl⟩
    | writeFile left => exact ⟨rfl, rfl⟩
    | rename => exact ⟨rfl, rfl⟩

/-- The file can be opened, and what it gives is valid UTF-8. -/
def Written (aead : Aead) (material : Bytes) (s : SealedKeystore) : Prop :=
  ∃ keys, openKeystore aead material s.file = .ok keys ∧ Valid keys

theorem Written.valid (hw : Written aead material s) (hs : Reopens aead material s) : Valid s.keys := by
  obtain ⟨keys, hopen, hvalid⟩ := hw
  obtain ⟨keys', hopen', hsame⟩ := hs
  obtain rfl := Except.ok.inj (hopen.symm.trans hopen')
  intro name pem hlookup
  exact hvalid name pem ((hsame name).trans hlookup)

/-- While the file is left, a store reopens as it is exactly when its keys are left too. -/
theorem reopens_iff_of_file (hs : Reopens aead material s) (hfile : s'.file = s.file) :
    Reopens aead material s' ↔ ∀ name, s'.get name = s.get name := by
  obtain ⟨keys, hopen, hsame⟩ := hs
  constructor
  · rintro ⟨keys', hopen', hsame'⟩ name
    rw [hfile] at hopen'
    obtain rfl := Except.ok.inj (hopen.symm.trans hopen')
    rw [← hsame, ← hsame']
  · intro hkeys
    exact ⟨keys, hfile ▸ hopen, fun name => (hsame name).trans (hkeys name).symm⟩

theorem lookup_insert_same_iff (keys : Keys) (name pem : GoString) :
    (∀ n, (keys.insert name pem).lookup n = keys.lookup n) ↔ keys.lookup name = some pem := by
  constructor
  · intro h
    rw [← h name, AList.lookup_insert]
  · intro h n
    by_cases hn : n = name
    · rw [hn, AList.lookup_insert, h]
    · rw [AList.lookup_insert_ne hn]

theorem lookup_erase_same_iff (keys : Keys) (name : GoString) :
    (∀ n, (keys.erase name).lookup n = keys.lookup n) ↔ keys.lookup name = none := by
  constructor
  · intro h
    rw [← h name, AList.lookup_erase]
  · intro h n
    by_cases hn : n = name
    · rw [hn, AList.lookup_erase, h]
    · rw [AList.lookup_erase_ne hn]

theorem valid_insert_iff {keys : Keys} (h : Valid keys) (name pem : GoString) :
    Valid (keys.insert name pem) ↔ malformed name = 0 ∧ malformed pem = 0 := by
  constructor
  · intro hvalid
    exact hvalid name pem (AList.lookup_insert keys)
  · intro hnew n p hlookup
    by_cases hn : n = name
    · subst hn
      rw [AList.lookup_insert] at hlookup
      exact Option.some.inj hlookup ▸ hnew
    · rw [AList.lookup_insert_ne hn] at hlookup
      exact h n p hlookup

theorem Valid.erase {keys : Keys} (h : Valid keys) (name : GoString) : Valid (keys.erase name) := by
  intro n p hlookup
  by_cases hn : n = name
  · rw [hn, AList.lookup_erase] at hlookup
    cases hlookup
  · rw [AList.lookup_erase_ne hn] at hlookup
    exact h n p hlookup

theorem reopens_iff_of_sealed (haead : aead.Correct) (hmaterial : material ≠ []) {nonce : Buffer 12}
    (hfile : s.file = some (sealedKeys aead material nonce s.keys)) :
    Reopens aead material s ↔ Valid s.keys := by
  have hopen := openKeystore_sealedKeys haead hmaterial nonce s.keys
  rw [← hfile] at hopen
  rw [← lookup_coercedKeys_iff]
  constructor
  · rintro ⟨keys, hopen', hsame⟩ name
    obtain rfl := Except.ok.inj (hopen.symm.trans hopen')
    exact hsame name
  · exact fun hsame => ⟨_, hopen, hsame⟩

theorem reopens_persistLocked_iff (haead : aead.Correct) (hmaterial : material ≠ [])
    (hs : Reopens aead material s) (keys : Keys) (w : World) :
    Reopens aead material (persistLocked aead material w { s with keys := keys }).2 ↔
      (w.fault = none → Valid keys) ∧
      (w.fault ≠ none → ∀ name, keys.lookup name = s.keys.lookup name) := by
  rcases persistLocked_cases aead material w { s with keys := keys } with
    ⟨hnone, -, hkeys, hfile⟩ | ⟨hfault, hkeys, hfile⟩
  · rw [← hkeys] at hfile
    rw [reopens_iff_of_sealed haead hmaterial hfile, hkeys]
    simp [hnone]
  · rw [reopens_iff_of_file hs hfile]
    simp only [SealedKeystore.get, hkeys, hfault, false_imp_iff, true_and, ne_eq, not_false_eq_true,
      true_imp_iff]

theorem reopens_exec_iff (haead : aead.Correct) (hmaterial : material ≠ [])
    (hw : Written aead material s) (hs : Reopens aead material s)
    (he : exec aead material s op = some s') :
    Reopens aead material s' ↔ Harmless s op := by
  have hvalid := hw.valid hs
  obtain rfl := Option.some.inj he
  cases op with
  | put name pem w =>
    show Reopens aead material (persistLocked aead material w _).2 ↔ _
    rw [reopens_persistLocked_iff haead hmaterial hs, valid_insert_iff hvalid, lookup_insert_same_iff,
      Harmless, SealedKeystore.get]
    constructor
    · rintro ⟨hsealed, hfailed⟩
      by_cases hfault : w.fault = none
      · exact ⟨(hsealed hfault).1, (hsealed hfault).2, hfailed⟩
      · exact ⟨(hvalid name pem (hfailed hfault)).1, (hvalid name pem (hfailed hfault)).2, hfailed⟩
    · rintro ⟨hname, hpem, hfailed⟩
      exact ⟨fun _ => ⟨hname, hpem⟩, hfailed⟩
  | delete name w =>
    rw [call, delete]
    by_cases habsent : s.get name = none
    · rw [if_pos habsent]
      exact ⟨fun _ _ => habsent, fun _ => hs⟩
    · rw [if_neg habsent, reopens_persistLocked_iff haead hmaterial hs, lookup_erase_same_iff,
        Harmless, SealedKeystore.get]
      exact ⟨fun h => h.2, fun h => ⟨fun _ => hvalid.erase name, h⟩⟩
  | get name => exact ⟨fun _ => trivial, fun _ => hs⟩
  | reopen =>
    refine ⟨fun _ => trivial, fun _ => ?_⟩
    obtain ⟨keys, hopen, -⟩ := hw
    rw [call, hopen]
    exact ⟨keys, hopen, fun _ => rfl⟩

theorem written_persistLocked (haead : aead.Correct) (hmaterial : material ≠ [])
    (hw : Written aead material s) (keys : Keys) (w : World) :
    Written aead material (persistLocked aead material w { s with keys := keys }).2 := by
  rcases persistLocked_cases aead material w { s with keys := keys } with
    ⟨-, -, -, hfile⟩ | ⟨-, -, hfile⟩
  · refine ⟨coercedKeys keys, ?_, valid_coercedKeys keys⟩
    rw [hfile]
    exact openKeystore_sealedKeys haead hmaterial w.nonce keys
  · rw [Written, hfile]
    exact hw

theorem written_exec (haead : aead.Correct) (hmaterial : material ≠ []) (hw : Written aead material s)
    (he : exec aead material s op = some s') : Written aead material s' := by
  obtain rfl := Option.some.inj he
  cases op with
  | put name pem w => exact written_persistLocked haead hmaterial hw _ w
  | delete name w =>
    rw [call, delete]
    by_cases habsent : s.get name = none
    · rwa [if_pos habsent]
    · rw [if_neg habsent]
      exact written_persistLocked haead hmaterial hw _ w
  | get name => exact hw
  | reopen =>
    obtain ⟨keys, hopen, hvalid⟩ := hw
    rw [call, hopen]
    exact ⟨keys, hopen, hvalid⟩

theorem file_of_error {err : KeystoreError} (h : (call aead material s op).1 = .error err) :
    (call aead material s op).2.file = s.file := by
  have hpersist (keys : Keys) (w : World)
      (h : (persistLocked aead material w { s with keys := keys }).1 = .error err) :
      (persistLocked aead material w { s with keys := keys }).2.file = s.file := by
    rcases persistLocked_cases aead material w { s with keys := keys } with
      ⟨-, hok, -, -⟩ | ⟨-, -, hfile⟩
    · rw [hok] at h
      cases h
    · exact hfile
  cases op with
  | put name pem w => exact hpersist _ w h
  | delete name w =>
    rw [call, delete] at h ⊢
    by_cases habsent : s.get name = none
    · rw [if_pos habsent]
    · rw [if_neg habsent] at h ⊢
      exact hpersist _ w h
  | get name => rfl
  | reopen =>
    rw [call]
    cases openKeystore aead material s.file <;> rfl

end Steps

/-- Memory and the sealed file agree along a run, and its errors change nothing, exactly when each
of its steps is harmless: a change that is not persisted stays in memory. -/
theorem atomic_iff_harmless {aead : Aead} (haead : aead.Correct) {material : Bytes}
    (hmaterial : material ≠ []) (ops : List Op) :
    Atomic aead material ops ↔ Along (exec aead material) Harmless fresh ops := by
  have hopen : openKeystore aead material none = .ok ∅ := if_neg hmaterial
  have hfresh : Reopens aead material fresh := ⟨∅, hopen, fun _ => rfl⟩
  have hwritten : Written aead material fresh := by
    refine ⟨∅, hopen, fun name pem hlookup => ?_⟩
    rw [AList.lookup_empty] at hlookup
    cases hlookup
  obtain ⟨t, hrun⟩ := run_of_total
    (show ∀ s op, (exec aead material s op).isSome from fun _ _ => rfl) fresh ops
  have hiff := stays_iff_along_of_run (A := fun _ => True)
    (fun s op s' _ hw _ he => written_exec haead hmaterial hw he)
    (fun s op s' hw hs he => reopens_exec_iff haead hmaterial hw hs he)
    (fun _ _ => trivial) hwritten hfresh hrun
  refine ⟨fun h => hiff.mp h.reopens, fun halong => ?_⟩
  have hreopens := hiff.mpr halong
  refine ⟨?_, hreopens⟩
  intro pre op post s hops hpre err herr
  have hs := hreopens pre (op :: post) s hops hpre
  have hs' : Reopens aead material (call aead material s op).2 := by
    refine hreopens (pre ++ [op]) post _ (by rw [hops, List.append_assoc]; rfl) ?_
    exact run_append.mpr ⟨s, hpre, run_cons_eq_some.mpr ⟨_, rfl, rfl⟩⟩
  exact (reopens_iff_of_file hs (file_of_error herr)).mp hs'

section Samples

def devMaterial : Bytes := utf8 "dev-unseal-material-xyz"

def builtIn : GoString := utf8 "cert-built-in"

def quietly : World := ⟨⟨List.replicate 12 0, by decide⟩, none⟩

def diskFull : World := { quietly with fault := some (.writeFile none) }

/-- A key is stored, is stored again while the disk is full, and is deleted by the next process. -/
def rotation : List Op :=
  [.put builtIn (utf8 "PEM") quietly, .put builtIn (utf8 "PEM") diskFull, .reopen,
    .delete builtIn quietly]

theorem rotation_atomic : Atomic Sample.tagged devMaterial rotation := by
  refine (atomic_iff_harmless Sample.tagged_correct (by decide +kernel) rotation).mpr ?_
  have hchecked : checkAlong (exec Sample.tagged devMaterial) (fun s op => decide (Harmless s op)) fresh
      rotation = true := by decide +kernel
  exact along_of_check (fun _ _ h => of_decide_eq_true h) hchecked

/-- A key that could not be written is served until the process ends, and is gone then. -/
theorem unsealed_key_served :
    (put Sample.tagged devMaterial builtIn (utf8 "PEM") diskFull fresh).1 =
      .error (.notPersisted (.writeFile none)) ∧
    fresh.get builtIn = none ∧
    (put Sample.tagged devMaterial builtIn (utf8 "PEM") diskFull fresh).2.get builtIn = some (utf8 "PEM") ∧
    ¬ Atomic Sample.tagged devMaterial [.put builtIn (utf8 "PEM") diskFull] := by
  refine ⟨rfl, by decide +kernel, by decide +kernel, ?_⟩
  intro h
  have hget := h.errors [] _ [] fresh rfl rfl _ rfl builtIn
  exact absurd hget (by decide +kernel)

end Samples

end ArchGuard.Keystore
