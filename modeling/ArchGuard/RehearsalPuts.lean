import ArchGuard.RehearsalFaults

/-! What a migration and a fusion put into the vault, and what they leave there where they fail. -/
namespace ArchGuard
open GoMethod GoText Method Tenancy

/-- The vault answers each `Put` with a reference that it draws, or with an error. A run makes the
`n`-th `Put` once, with one secret, so an answer for each call is an answer for each secret. -/
def Outside.withVault (w : Outside) (vault : ℕ → Option GoString) : Outside :=
  { w with put := fun n _ => vault n }

/-- `k` UUIDs are drawn from the `d`-th on. -/
def Outside.Draws (w : Outside) (d k : ℕ) : Prop := ∀ n, d ≤ n → n < d+k → (w.newV7 n).isSome

def Calls.draw (c : Calls) (k : ℕ) : Calls := { c with drawn := c.drawn+k }

namespace Migration

/-- A `Put` from the `p`-th on and before the `q`-th gave the reference. -/
def Answered (vault : ℕ → Option GoString) (p q : ℕ) (ref : GoString) : Prop :=
  ∃ n, p ≤ n ∧ n < q ∧ vault n = some ref

/-- The vault references among credentials. -/
def secretRefs (cs : List Credential) : List GoString := (cs.map (·.secretRef)).filter (· ≠ [])

section Counts

variable (lc : LegacyCredentials)

def LegacyCredentials.passwords : ℕ :=
  if lc.passwordHash = [] || isPlaintextScheme lc.passwordType then 0 else 1

def LegacyCredentials.seeds : ℕ := if lc.totpSecret = [] then 0 else 1

/-- The credentials that are built after the seed went to the vault. -/
def LegacyCredentials.later : ℕ :=
  (lc.recoveryCodes.filter (· ≠ [])).length+(lc.webAuthn.filter (· ≠ [])).length

def afterMigration (c : Calls) : Calls :=
  ⟨c.drawn+(lc.passwords+lc.seeds+lc.later), c.subjects, c.puts+lc.seeds⟩

variable (w : Outside) (vault : ℕ → Option GoString) (c : Calls)

/-- Nothing outside fails a migration of the material. -/
structure Migrates : Prop where
  drawn : w.Draws c.drawn (lc.passwords+lc.seeds+lc.later)
  sealed : lc.totpSecret ≠ [] → ∃ ref, vault c.puts = some ref ∧ ref ≠ []

/-- A migration of the material puts its seed into the vault. -/
structure PutsSeed : Prop where
  seed : lc.totpSecret ≠ []
  drawn : w.Draws c.drawn lc.passwords
  put : (vault c.puts).isSome

end Counts

section Answers

variable {vault : ℕ → Option GoString} {p q r : ℕ} {ref : GoString}

theorem mem_secretRefs {cs : List Credential} :
    ref ∈ secretRefs cs ↔ ref ≠ [] ∧ ∃ c ∈ cs, c.secretRef = ref := by
  rw [secretRefs, List.mem_filter, List.mem_map, decide_eq_true_eq, and_comm]

theorem secretRefs_append (cs ds : List Credential) :
    secretRefs (cs ++ ds) = secretRefs cs ++ secretRefs ds := by
  rw [secretRefs, List.map_append, List.filter_append]
  rfl

/-- A credential without a vault reference. -/
theorem secretRefs_cons {cred : Credential} {cs : List Credential} (h : cred.secretRef = []) :
    secretRefs (cred :: cs) = secretRefs cs := by
  rw [secretRefs, List.map_cons, h]
  rfl

theorem answered_self : ¬Answered vault p p ref := by
  rintro ⟨n, hp, hn, -⟩
  omega

theorem answered_succ : Answered vault p (p+1) ref ↔ vault p = some ref := by
  constructor
  · rintro ⟨n, hp, hn, h⟩
    obtain rfl : n = p := by omega
    exact h
  · exact fun h => ⟨p, le_refl p, Nat.lt_succ_self p, h⟩

theorem answered_trans (hpq : p ≤ q) (hqr : q ≤ r) :
    Answered vault p r ref ↔ Answered vault p q ref ∨ Answered vault q r ref := by
  constructor
  · rintro ⟨n, hp, hn, h⟩
    by_cases hq : n < q
    · exact Or.inl ⟨n, hp, hq, h⟩
    · exact Or.inr ⟨n, not_lt.mp hq, hn, h⟩
  · rintro (⟨n, hp, hn, h⟩ | ⟨n, hp, hn, h⟩)
    · exact ⟨n, hp, hn.trans_le hqr, h⟩
    · exact ⟨n, hpq.trans hp, hn, h⟩

end Answers

section Draws

variable {w : Outside} {ε α β : Type} {d k l : ℕ}

theorem draws_zero : w.Draws d 0 := fun n hd hn => absurd hn (by omega)

theorem draws_one : w.Draws d 1 ↔ (w.newV7 d).isSome := by
  constructor
  · exact fun h => h d (le_refl d) (Nat.lt_succ_self d)
  · intro h n hd hn
    obtain rfl : n = d := by omega
    exact h

theorem draws_add : w.Draws d (k+l) ↔ w.Draws d k ∧ w.Draws (d+k) l := by
  constructor
  · exact fun h => ⟨fun n hd hn => h n hd (by omega), fun n hd hn => h n (by omega) (by omega)⟩
  · rintro ⟨hk, hl⟩ n hd hn
    by_cases hlt : n < d+k
    · exact hk n hd hlt
    · exact hl n (not_lt.mp hlt) (by omega)

/-- The method draws `k` UUIDs and puts nothing; it fails only where one of them is not drawn. -/
def Spends (w : Outside) (m : Method Calls ε α) (k : ℕ) (P : α → Prop) : Prop :=
  ∀ c, (w.Draws c.drawn k → ∃ a, m.call c = (.ok a, c.draw k) ∧ P a) ∧
    (¬w.Draws c.drawn k → ∃ err c', m.call c = (.error err, c') ∧ c'.puts = c.puts)

variable {m : Method Calls ε α} {f : α → Method Calls ε β} {P : α → Prop} {Q : β → Prop}

theorem spends_pure {a : α} (h : P a) : Spends w (pure a : Method Calls ε α) 0 P :=
  fun _ => ⟨fun _ => ⟨a, rfl, h⟩, fun hd => absurd draws_zero hd⟩

theorem Spends.bind (hm : Spends w m k P) (hf : ∀ a, P a → Spends w (f a) l Q) :
    Spends w (m >>= f) (k+l) Q := by
  intro c
  rw [draws_add, call_bind]
  by_cases hk : w.Draws c.drawn k
  · obtain ⟨a, hcall, ha⟩ := (hm c).1 hk
    rw [hcall]
    obtain ⟨hok, herr⟩ := hf a ha (c.draw k)
    refine ⟨fun h => ?_, fun h => herr fun hl => h ⟨hk, hl⟩⟩
    obtain ⟨b, hb, hQ⟩ := hok h.2
    refine ⟨b, hb.trans ?_, hQ⟩
    rw [Calls.draw, Calls.draw, Calls.draw, Nat.add_assoc]
  · obtain ⟨err, c', hcall, hputs⟩ := (hm c).2 hk
    rw [hcall]
    exact ⟨fun h => absurd h.1 hk, fun _ => ⟨err, c', rfl, hputs⟩⟩

theorem Spends.refuse {p : Prop} [Decidable p] {err : ε} {f : Unit → Method Calls ε β}
    (hp : ¬p) (hf : Spends w (f ()) k Q) : Spends w (refuseIf p err >>= f) k Q := by
  intro c
  rw [call_refuseIf_bind, if_neg hp]
  exact hf c

theorem Spends.within {δ : Type} {wrap : ε → δ} (h : Spends w m k P) :
    Spends w (Method.within id (fun _ c => c) wrap m) k P := by
  intro c
  rw [within_call]
  refine ⟨fun hk => ?_, fun hk => ?_⟩
  · obtain ⟨a, hcall, ha⟩ := (h c).1 hk
    exact ⟨a, by rw [id, hcall], ha⟩
  · obtain ⟨err, c', hcall, hputs⟩ := (h c).2 hk
    exact ⟨wrap err, c', by rw [id, hcall], hputs⟩

theorem spends_newUuid (err : ε) : Spends w (newUuid w err) 1 fun _ => True := by
  intro c
  rw [draws_one, newUuid, call_get_bind, call_modify_bind]
  cases hn : w.newV7 c.drawn with
  | none => exact ⟨fun h => absurd h (by decide), fun _ => ⟨err, c.draw 1, rfl, rfl⟩⟩
  | some u => exact ⟨fun _ => ⟨u, rfl, trivial⟩, fun h => absurd rfl h⟩

end Draws

section Migrate

variable {w : Outside} {vault : ℕ → Option GoString} {identityId : Uuid}

/-- A constructor with its material: one id, and the reference that it fills in. -/
theorem spends_filled {t : FactorType} {p : Prop} [Decidable p] {err : CredentialError}
    {fill : Credential → Credential} {factor : String} {ref : GoString}
    (hid : identityId ≠ Uuid.nil) (hp : ¬p)
    (hfill : ∀ made : Credential, made.secretRef = [] → (fill made).secretRef = ref) :
    Spends w (labelled factor (refuseIf p err >>= fun _ => newCredential w identityId t >>=
      fun made => pure (fill made))) 1 (·.secretRef = ref) := by
  have hnew : Spends w (newCredential w identityId t) 1 (·.secretRef = []) := by
    apply Spends.refuse hid
    exact (spends_newUuid _).bind fun _ _ => spends_pure (P := fun made : Credential =>
      made.secretRef = []) rfl
  apply Spends.within
  apply Spends.refuse hp
  exact hnew.bind fun made hmade => spends_pure (hfill made hmade)

theorem spends_credentials {cs : List Credential} (h : secretRefs cs = []) :
    Spends w (pure cs : Migrating (List Credential)) 0 fun cs => secretRefs cs = [] := spends_pure h

theorem spends_migrateEach {create : Bytes → Migrating Credential} (bs : List Bytes)
    (h : ∀ b, b ≠ [] → Spends w (create b) 1 (·.secretRef = [])) :
    Spends w (migrateEach create bs) (bs.filter (· ≠ [])).length
      fun cs => secretRefs cs = [] := by
  induction bs with
  | nil => exact spends_credentials rfl
  | cons b bs ih =>
    rw [migrateEach]
    by_cases hb : b = []
    · rw [if_pos hb, List.filter_cons_of_neg (by simp [hb])]
      exact ih
    · rw [if_neg hb, List.filter_cons_of_pos (by simp [hb]), List.length_cons, Nat.add_comm]
      apply (h b hb).bind
      intro cred hcred
      exact ih.bind fun cs hcs => spends_credentials ((secretRefs_cons hcred).trans hcs)

theorem spends_migratePassword (hid : identityId ≠ Uuid.nil) (lc : LegacyCredentials) :
    Spends w (migratePassword w identityId lc) lc.passwords fun cs => secretRefs cs = [] := by
  rw [migratePassword, LegacyCredentials.passwords]
  by_cases h : (lc.passwordHash = [] || isPlaintextScheme lc.passwordType) = true
  · rw [if_pos h, if_pos h]
    exact spends_credentials rfl
  · rw [if_neg h, if_neg h]
    have hne : lc.passwordHash ≠ [] := fun he => h (by simp [he])
    have hmade : Spends w (labelled "senha" (newPasswordCredential w identityId lc.passwordHash
        lc.passwordType lc.passwordSalt)) 1 (·.secretRef = []) :=
      spends_filled hid hne fun _ h => h
    exact hmade.bind fun cred hcred => spends_credentials (secretRefs_cons hcred)

/-- What follows the TOTP credential adds no reference. -/
theorem spends_later (hid : identityId ≠ Uuid.nil) (lc : LegacyCredentials)
    (cs : List Credential) (reset : Bool) :
    Spends w (migrateEach (fun code => labelled "recovery code"
        (newRecoveryCodeCredential w identityId (hashLegacyCode code))) lc.recoveryCodes >>=
      fun codes => migrateEach (fun pub => labelled "WebAuthn"
        (newWebAuthnCredential w identityId pub)) lc.webAuthn >>=
      fun keys => pure (⟨cs ++ codes ++ keys, reset⟩ : MigratedCredentials)) lc.later
      fun res => secretRefs res.credentials = secretRefs cs := by
  have hcode (code : Bytes) (_ : code ≠ []) : Spends w (labelled "recovery code"
      (newRecoveryCodeCredential w identityId (hashLegacyCode code))) 1 (·.secretRef = []) :=
    spends_filled hid (hashLegacyCode_ne_nil code) fun _ h => h
  have hkey (pub : Bytes) (hne : pub ≠ []) : Spends w (labelled "WebAuthn"
      (newWebAuthnCredential w identityId pub)) 1 (·.secretRef = []) :=
    spends_filled hid hne fun _ h => h
  apply (spends_migrateEach lc.recoveryCodes hcode).bind
  intro codes hc
  have hrefs (keys : List Credential) (hk : secretRefs keys = []) :
      secretRefs (cs ++ codes ++ keys) = secretRefs cs := by
    rw [secretRefs_append, secretRefs_append, hc, hk, List.append_nil, List.append_nil]
  exact (spends_migrateEach lc.webAuthn hkey).bind fun keys hk => spends_pure (P := fun res : MigratedCredentials =>
    secretRefs res.credentials = secretRefs cs) (hrefs keys hk)

/-- The method returns where `ok` holds, and adds the references that the vault gave on the way to
those that it had; else it fails, and leaves secrets in the vault where `strands` holds. -/
structure Builds {ε α : Type} (vault : ℕ → Option GoString) (m : Method Calls ε α) (c : Calls)
    (ok : Prop) (c₁ : Calls) (had : List GoString) (refs : α → List GoString) (strands : Prop) :
    Prop where
  returns : ok → c.puts ≤ c₁.puts ∧ ∃ a, m.call c = (.ok a, c₁) ∧
    ∀ ref, ref ∈ refs a ↔ ref ∈ had ∨ Answered vault c.puts c₁.puts ref
  errs : ¬ok → ∃ err c', m.call c = (.error err, c') ∧ c.puts ≤ c'.puts ∧
    (strands ↔ ∃ ref, Answered vault c.puts c'.puts ref)

section Builds

variable {ε α β : Type} {m : Method Calls ε α} {f : α → Method Calls ε β} {c c₁ d : Calls}
  {ok strands : Prop} {had : List GoString} {refs : β → List GoString}

/-- A first part that returns and puts nothing. -/
theorem Builds.spent {a : α} (hm : m.call c = (.ok a, d)) (hputs : d.puts = c.puts)
    (h : Builds vault (f a) d ok c₁ had refs strands) : Builds vault (m >>= f) c ok c₁ had refs strands := by
  obtain ⟨hreturns, herrs⟩ := h
  rw [hputs] at hreturns herrs
  have hcall : (m >>= f).call c = (f a).call d := by rw [call_bind, hm]
  exact ⟨by rw [hcall]; exact hreturns, by rw [hcall]; exact herrs⟩

theorem Builds.failed {err : ε} (hm : m.call c = (.error err, d)) (hok : ¬ok)
    (hle : c.puts ≤ d.puts) (hstrands : strands ↔ ∃ ref, Answered vault c.puts d.puts ref) :
    Builds vault (m >>= f) c ok c₁ had refs strands := by
  refine ⟨fun h => absurd h hok, fun _ => ⟨err, d, ?_, hle, hstrands⟩⟩
  rw [call_bind, hm]

theorem Builds.refuse {p : Prop} [Decidable p] {err : ε} {f : Unit → Method Calls ε β} (hp : ¬p)
    (h : Builds vault (f ()) c ok c₁ had refs strands) :
    Builds vault (refuseIf p err >>= f) c ok c₁ had refs strands := by
  apply Builds.spent (d := c) (a := ()) ?_ rfl h
  rw [refuseIf, if_neg hp]
  rfl

theorem answered_same {p q : ℕ} (h : q = p) : ¬∃ ref, Answered vault p q ref := by
  rintro ⟨ref, hr⟩
  rw [h] at hr
  exact answered_self hr

/-- A method that puts nothing leaves nothing behind. -/
theorem Spends.builds {k : ℕ} {P : α → Prop} (hm : Spends w m k P) (vault : ℕ → Option GoString)
    (refs : α → List GoString) (hP : ∀ a, P a → refs a = had) (c : Calls) :
    Builds vault m c (w.Draws c.drawn k) (c.draw k) had refs False := by
  obtain ⟨hok, herr⟩ := hm c
  refine ⟨fun h => ⟨le_refl _, ?_⟩, fun h => ?_⟩
  · obtain ⟨a, hcall, ha⟩ := hok h
    refine ⟨a, hcall, fun ref => ?_⟩
    rw [hP a ha]
    exact (or_iff_left answered_self).symm
  · obtain ⟨err, d, hcall, hputs⟩ := herr h
    exact ⟨err, d, hcall, hputs.ge, fun h => h.elim, fun h => absurd h (answered_same hputs)⟩

theorem Builds.congr {ok' strands' : Prop} {c₁' : Calls} {refs : α → List GoString}
    (h : Builds vault m c ok c₁ had refs strands) (hok : ok' ↔ ok) (hc : c₁' = c₁)
    (hstrands : ¬ok → (strands' ↔ strands)) : Builds vault m c ok' c₁' had refs strands' := by
  subst hc
  refine ⟨fun h' => h.returns (hok.mp h'), fun h' => ?_⟩
  rw [hok] at h'
  rw [hstrands h']
  exact h.errs h'

theorem builds_of_error {refs : α → List GoString} (hok : ¬ok) (hstrands : ¬strands)
    (hm : ∃ err d, m.call c = (.error err, d) ∧ d.puts = c.puts) :
    Builds vault m c ok c₁ had refs strands := by
  obtain ⟨err, d, hcall, hputs⟩ := hm
  refine ⟨fun h => absurd h hok, fun _ => ⟨err, d, hcall, hputs.ge, ?_⟩⟩
  exact ⟨fun h => absurd h hstrands, fun h => absurd h (answered_same hputs)⟩

theorem Builds.within {δ : Type} {wrap : ε → δ} {refs : α → List GoString}
    (h : Builds vault m c ok c₁ had refs strands) :
    Builds vault (Method.within id (fun _ c => c) wrap m) c ok c₁ had refs strands := by
  refine ⟨fun hok => ?_, fun hok => ?_⟩
  · obtain ⟨hle, a, hcall, hrefs⟩ := h.returns hok
    exact ⟨hle, a, by rw [within_call, id, hcall], hrefs⟩
  · obtain ⟨err, d, hcall, hle, hstrands⟩ := h.errs hok
    exact ⟨wrap err, d, by rw [within_call, id, hcall], hle, hstrands⟩

/-- What is built goes to what there was. -/
theorem Builds.append {g : α → β} {refs₀ : α → List GoString}
    (h : Builds vault m c ok c₁ [] refs₀ strands) (hg : ∀ a, refs (g a) = had ++ refs₀ a) :
    Builds vault (m >>= fun a => pure (g a)) c ok c₁ had refs strands := by
  refine ⟨fun hok => ?_, fun hok => ?_⟩
  · obtain ⟨hle, a, hcall, hrefs⟩ := h.returns hok
    refine ⟨hle, g a, ?_, fun ref => ?_⟩
    · rw [call_bind, hcall]
      rfl
    · rw [hg, List.mem_append, hrefs, or_iff_right List.not_mem_nil]
  · obtain ⟨err, d, hcall, hle, hstrands⟩ := h.errs hok
    refine ⟨err, d, ?_, hle, hstrands⟩
    rw [call_bind, hcall]

end Builds

theorem migrates_iff {lc : LegacyCredentials} {c : Calls} : Migrates lc w vault c ↔
    w.Draws c.drawn lc.passwords ∧ w.Draws (c.drawn+lc.passwords) (lc.seeds+lc.later) ∧
      (lc.totpSecret ≠ [] → ∃ ref, vault c.puts = some ref ∧ ref ≠ []) := by
  rw [← and_assoc, ← draws_add, ← Nat.add_assoc]
  exact ⟨fun h => ⟨h.drawn, h.sealed⟩, fun h => ⟨h.1, h.2⟩⟩

theorem totp_builds (hput : ∀ n secret, w.put n secret = vault n) (hid : identityId ≠ Uuid.nil)
    {lc : LegacyCredentials} (hseed : lc.totpSecret ≠ []) {rest : List Credential →
      Migrating MigratedCredentials} (hrest : ∀ totp, Spends w (rest totp) lc.later fun res =>
      secretRefs res.credentials = secretRefs totp) (c : Calls) :
    Builds vault (migrateTotp w identityId lc >>= rest) c
      (w.Draws c.drawn (1+lc.later) ∧ ∃ ref, vault c.puts = some ref ∧ ref ≠ [])
      { c.draw (1+lc.later) with puts := c.puts+1 } [] (fun res => secretRefs res.credentials)
      (vault c.puts).isSome := by
  have hstrands : (vault c.puts).isSome ↔ ∃ ref, Answered vault c.puts (c.puts+1) ref := by
    rw [Option.isSome_iff_exists]
    exact exists_congr fun ref => answered_succ.symm
  have hput := hput c.puts lc.totpSecret
  have htotp : migrateTotp w identityId lc = putSecret w lc.totpSecret >>= fun ref =>
      labelled "TOTP" (newTotpCredential w identityId ref) >>= fun cred => pure [cred] :=
    if_neg hseed
  rw [htotp, bind_assoc]
  cases hv : vault c.puts with
  | none =>
    rw [hv] at hput hstrands
    have hcall : (putSecret w lc.totpSecret).call c =
        (.error .vault, { c with puts := c.puts+1 }) := by
      rw [putSecret, call_get_bind, call_modify_bind, hput]
      rfl
    apply Builds.failed hcall ?_ (Nat.le_succ _) hstrands
    rintro ⟨-, ref, h, -⟩
    cases h
  | some ref =>
    rw [hv] at hput hstrands
    have hcall : (putSecret w lc.totpSecret).call c = (.ok ref, { c with puts := c.puts+1 }) := by
      rw [putSecret, call_get_bind, call_modify_bind, hput]
      rfl
    have hanswered (r : GoString) : r ∈ [ref] ↔
        r ∈ ([] : List GoString) ∨ Answered vault c.puts (c.puts+1) r := by
      rw [or_iff_right List.not_mem_nil, List.mem_singleton, answered_succ, hv, Option.some.injEq, eq_comm]
    by_cases hne : ref = []
    · refine ⟨?_, fun _ => ?_⟩
      · rintro ⟨-, r, h, hr⟩
        exact absurd (Option.some.inj h ▸ hne) hr
      refine ⟨.credential "TOTP" (.invalidCredential "secretRef de TOTP vazio"),
        { c with puts := c.puts+1 }, ?_, Nat.le_succ _, hstrands⟩
      rw [call_bind, hcall, hne]
      rfl
    · have hmade : Spends w (labelled "TOTP" (newTotpCredential w identityId ref)) 1
          (·.secretRef = ref) := spends_filled hid hne fun _ _ => rfl
      have hlist : Spends w (labelled "TOTP" (newTotpCredential w identityId ref) >>= fun cred =>
          pure [cred]) 1 fun cs => secretRefs cs = [ref] := by
        apply hmade.bind (l := 0)
        intro cred hcred
        apply spends_pure
        rw [secretRefs, List.map_singleton, hcred]
        exact List.filter_cons_of_pos (decide_eq_true hne)
      have hall : Spends w ((labelled "TOTP" (newTotpCredential w identityId ref) >>= fun cred =>
          pure [cred]) >>= rest) (1+lc.later) fun res => secretRefs res.credentials = [ref] :=
        hlist.bind fun totp ht => ht ▸ hrest totp
      obtain ⟨hok, herr⟩ := hall { c with puts := c.puts+1 }
      constructor
      · rintro ⟨hdraws, -⟩
        obtain ⟨res, hres, hrefs⟩ := hok hdraws
        refine ⟨Nat.le_succ _, res, ?_, fun r => ?_⟩
        · rw [call_bind, hcall]
          exact hres
        · rw [hrefs]
          exact hanswered r
      · intro h
        obtain ⟨err, d, hcalled, hputs⟩ := herr fun hdraws => h ⟨hdraws, ref, rfl, hne⟩
        refine ⟨err, d, ?_, ?_, ?_⟩
        · rw [call_bind, hcall]
          exact hcalled
        · rw [hputs]
          exact Nat.le_succ _
        · rw [hputs]
          exact hstrands

theorem migrate_builds (hput : ∀ n secret, w.put n secret = vault n) (hid : identityId ≠ Uuid.nil)
    (lc : LegacyCredentials) (c : Calls) :
    Builds vault (migrate w identityId lc) c (Migrates lc w vault c) (afterMigration lc c)
      [] (fun res => secretRefs res.credentials) (PutsSeed lc w vault c) := by
  obtain ⟨hpok, hperr⟩ := spends_migratePassword (w := w) hid lc c
  apply Builds.refuse hid
  by_cases hd : w.Draws c.drawn lc.passwords
  · obtain ⟨password, hpassword, hrefs⟩ := hpok hd
    apply Builds.spent hpassword rfl
    by_cases hseed : lc.totpSecret = []
    · -- without a seed the rest of the migration only draws
      have hnone : lc.seeds = 0 := if_pos hseed
      have hlater := spends_later (w := w) hid lc (password ++ [])
        (lc.passwordHash ≠ [] && isPlaintextScheme lc.passwordType)
      have hrest := hlater.builds vault (fun res => secretRefs res.credentials)
        (fun res hres => by rw [hres, List.append_nil, hrefs]) (c.draw lc.passwords)
      have htotp : (migrateTotp w identityId lc).call (c.draw lc.passwords) =
          (.ok [], c.draw lc.passwords) := by
        rw [migrateTotp, if_pos hseed]
        rfl
      apply Builds.spent htotp rfl
      apply hrest.congr
      · rw [migrates_iff, hnone, Nat.zero_add]
        exact ⟨fun h => h.2.1, fun h => ⟨hd, h, fun hne => absurd hseed hne⟩⟩
      · simp only [afterMigration, Calls.draw, hnone, Nat.add_zero, Nat.add_assoc]
      · exact fun _ => ⟨fun h => h.seed hseed, fun h => h.elim⟩
    · have hone : lc.seeds = 1 := if_neg hseed
      have hlater (totp : List Credential) := spends_later (w := w) hid lc (password ++ totp)
        (lc.passwordHash ≠ [] && isPlaintextScheme lc.passwordType)
      have hrest := totp_builds hput hid hseed
        (fun totp => by
          have h := hlater totp
          rw [secretRefs_append, hrefs, List.nil_append] at h
          exact h) (c.draw lc.passwords)
      apply hrest.congr
      · rw [migrates_iff, hone]
        exact ⟨fun h => ⟨h.2.1, h.2.2 hseed⟩, fun h => ⟨hd, h.1, fun _ => h.2⟩⟩
      · simp only [afterMigration, Calls.draw, hone, Nat.add_assoc]
      · exact fun _ => ⟨fun h => h.put, fun h => ⟨hseed, hd, h⟩⟩
  · obtain ⟨err, d, hcall, hputs⟩ := hperr hd
    apply Builds.failed hcall (fun h => hd (migrates_iff.mp h).1) hputs.ge
    exact ⟨fun h => absurd h.drawn hd, fun h => absurd h (answered_same hputs)⟩

end Migrate

section Accounts

variable (w : Outside) (vault : ℕ → Option GoString) (organizationId : GoString → Option Uuid)
  (material : AccountRef → LegacyCredentials)

def Resolves (ref : AccountRef) : Prop :=
  ∃ org, organizationId ref.owner = some org ∧ org ≠ Uuid.nil

/-- From these calls on, nothing fails the membership and the credentials of an account. -/
structure AccountBuilt (c : Calls) (ref : AccountRef) : Prop where
  resolves : Resolves organizationId ref
  member : w.Draws c.drawn 1
  migrates : Migrates (material ref) w vault (c.draw 1)

/-- The seed of an account goes into the vault. -/
structure AccountVaulted (c : Calls) (ref : AccountRef) : Prop where
  resolves : Resolves organizationId ref
  member : w.Draws c.drawn 1
  puts : PutsSeed (material ref) w vault (c.draw 1)

def afterAccount (c : Calls) (ref : AccountRef) : Calls := afterMigration (material ref) (c.draw 1)

def AllBuilt (c : Calls) : List AccountRef → Prop
  | [] => True
  | ref :: refs => AccountBuilt w vault organizationId material c ref ∧
      AllBuilt (afterAccount material c ref) refs

/-- The seed of one of the accounts goes into the vault, and it or one that follows fails. -/
def SeedStranded (c : Calls) (refs : List AccountRef) : Prop :=
  ∃ pre ref post, refs = pre ++ ref :: post ∧ AllBuilt w vault organizationId material c pre ∧
    AccountVaulted w vault organizationId material (pre.foldl (afterAccount material) c) ref ∧
    ¬AllBuilt w vault organizationId material (pre.foldl (afterAccount material) c) (ref :: post)

variable {w vault organizationId material} {c : Calls} {ref : AccountRef} {refs : List AccountRef}

theorem seedStranded_cons : SeedStranded w vault organizationId material c (ref :: refs) ↔
    (AccountVaulted w vault organizationId material c ref ∧
      ¬AllBuilt w vault organizationId material c (ref :: refs)) ∨
    (AccountBuilt w vault organizationId material c ref ∧
      SeedStranded w vault organizationId material (afterAccount material c ref) refs) := by
  constructor
  · rintro ⟨pre, r, post, hsplit, hpre, hvault, hfail⟩
    cases pre with
    | nil =>
      obtain ⟨rfl, rfl⟩ := List.cons.inj hsplit
      exact Or.inl ⟨hvault, hfail⟩
    | cons r' pre =>
      obtain ⟨rfl, rfl⟩ := List.cons.inj hsplit
      exact Or.inr ⟨hpre.1, pre, r, post, rfl, hpre.2, hvault, hfail⟩
  · rintro (⟨hvault, hfail⟩ | ⟨hbuilt, pre, r, post, rfl, hpre, hvault, hfail⟩)
    · exact ⟨[], ref, refs, rfl, trivial, hvault, hfail⟩
    · exact ⟨ref :: pre, r, post, rfl, ⟨hbuilt, hpre⟩, hvault, hfail⟩

theorem allBuilt_append {pre post : List AccountRef} :
    AllBuilt w vault organizationId material c (pre ++ post) ↔
      AllBuilt w vault organizationId material c pre ∧
        AllBuilt w vault organizationId material (pre.foldl (afterAccount material) c) post := by
  induction pre generalizing c with
  | nil => exact (and_iff_right trivial).symm
  | cons r pre ih => rw [List.cons_append, AllBuilt, AllBuilt, ih, and_assoc, List.foldl_cons]

theorem SeedStranded.not_allBuilt (h : SeedStranded w vault organizationId material c refs) :
    ¬AllBuilt w vault organizationId material c refs := by
  obtain ⟨pre, r, post, rfl, -, -, hfail⟩ := h
  exact fun hall => hfail (allBuilt_append.mp hall).2

theorem seedStranded_nil : ¬SeedStranded w vault organizationId material c [] := by
  rintro ⟨pre, r, post, hsplit, -⟩
  cases pre with
  | nil => cases hsplit
  | cons _ _ => cases hsplit

variable {identityId : Uuid} {ε : Type}

theorem spends_newMember {org : Uuid} (err : ε) (hid : identityId ≠ Uuid.nil)
    (horg : org ≠ Uuid.nil) : Spends w (newMember w identityId org err) 1 fun _ => True := by
  apply (spends_newUuid _).bind (l := 0)
  intro id _
  rw [newMembership, newMembershipWith, if_neg (not_or.mpr ⟨hid, horg⟩)]
  exact spends_pure trivial

theorem newMember_nil (org : Uuid) (err : ε) (h : identityId = Uuid.nil ∨ org = Uuid.nil)
    (c : Calls) : ∃ err' d, (newMember w identityId org err).call c = (.error err', d) ∧
      d.puts = c.puts := by
  obtain ⟨hok, herr⟩ := spends_newUuid (w := w) err c
  by_cases hd : w.Draws c.drawn 1
  · obtain ⟨u, hcall, -⟩ := hok hd
    refine ⟨err, c.draw 1, ?_, rfl⟩
    rw [newMember, call_bind, hcall]
    dsimp only
    rw [newMembership, newMembershipWith, if_pos h]
    rfl
  · obtain ⟨err', d, hcall, hputs⟩ := herr hd
    refine ⟨err', d, ?_, hputs⟩
    rw [newMember, call_bind, hcall]

/-- The membership and the credentials of one account; the errors are the caller's. -/
def accountPart (w : Outside) (organizationId : GoString → Option Uuid) (identityId : Uuid)
    (lc : LegacyCredentials) (ref : AccountRef) (unresolved member : ε)
    (credentials : MigrationError → ε) : Method Calls ε (Membership × MigratedCredentials) :=
  match organizationId ref.owner with
  | none => throw unresolved
  | some org => do
    let m ← newMember w identityId org member
    let migrated ← within id (fun _ c => c) credentials (migrate w identityId lc)
    pure (m, migrated)

theorem accountPart_builds (hput : ∀ n secret, w.put n secret = vault n)
    (hid : identityId ≠ Uuid.nil) (material : AccountRef → LegacyCredentials) (c : Calls)
    (ref : AccountRef) (unresolved member : ε) (credentials : MigrationError → ε) :
    Builds vault (accountPart w organizationId identityId (material ref) ref unresolved member
      credentials) c (AccountBuilt w vault organizationId material c ref)
      (afterAccount material c ref) [] (fun p => secretRefs p.2.credentials)
      (AccountVaulted w vault organizationId material c ref) := by
  have hunresolved (h : ¬Resolves organizationId ref) {m : Method Calls ε
      (Membership × MigratedCredentials)} (hm : ∃ err d, m.call c = (.error err, d) ∧
      d.puts = c.puts) : Builds vault m c (AccountBuilt w vault organizationId material c ref)
      (afterAccount material c ref) [] (fun p => secretRefs p.2.credentials)
      (AccountVaulted w vault organizationId material c ref) :=
    builds_of_error (fun hb => h hb.resolves) (fun hv => h hv.resolves) hm
  rw [accountPart]
  cases horg : organizationId ref.owner with
  | none =>
    apply hunresolved
    · rintro ⟨org, h, -⟩
      rw [horg] at h
      cases h
    · exact ⟨unresolved, c, rfl, rfl⟩
  | some org =>
    by_cases hnil : org = Uuid.nil
    · apply hunresolved
      · rintro ⟨org', h, hne⟩
        rw [horg] at h
        exact hne (Option.some.inj h ▸ hnil)
      · obtain ⟨err, d, hcall, hputs⟩ := newMember_nil (w := w) org member (Or.inr hnil) c
        exact ⟨err, d, by rw [call_bind, hcall], hputs⟩
    · have hresolves : Resolves organizationId ref := ⟨org, horg, hnil⟩
      obtain ⟨hok, herr⟩ := spends_newMember (w := w) member hid hnil c
      by_cases hd : w.Draws c.drawn 1
      · obtain ⟨m, hcall, -⟩ := hok hd
        apply Builds.spent hcall rfl
        have hpart : Builds vault (within id (fun _ c => c) credentials (migrate w identityId
            (material ref)) >>= fun migrated => pure (m, migrated)) (c.draw 1)
            (Migrates (material ref) w vault (c.draw 1)) (afterAccount material c ref) []
            (fun p => secretRefs p.2.credentials) (PutsSeed (material ref) w vault (c.draw 1)) :=
          (migrate_builds hput hid (material ref) (c.draw 1)).within.append fun _ => rfl
        apply hpart.congr
        · exact ⟨fun h => h.migrates, fun h => ⟨hresolves, hd, h⟩⟩
        · rfl
        · exact fun _ => ⟨fun h => h.puts, fun h => ⟨hresolves, hd, h⟩⟩
      · obtain ⟨err, d, hcall, hputs⟩ := herr hd
        apply Builds.failed hcall (fun h => hd h.member) hputs.ge
        exact ⟨fun h => absurd h.member hd, fun h => absurd h (answered_same hputs)⟩

theorem afterAccount_puts (material : AccountRef → LegacyCredentials) (c : Calls)
    (ref : AccountRef) : (afterAccount material c ref).puts = c.puts+(material ref).seeds := rfl

/-- Of an account that is built the seed is in the vault, where it has one. -/
theorem AccountBuilt.vaulted_iff (h : AccountBuilt w vault organizationId material c ref) :
    AccountVaulted w vault organizationId material c ref ↔
      ∃ r, Answered vault c.puts (afterAccount material c ref).puts r := by
  rw [afterAccount_puts, LegacyCredentials.seeds]
  by_cases hseed : (material ref).totpSecret = []
  · rw [if_pos hseed]
    exact ⟨fun hv => absurd hseed hv.puts.seed, fun ha => absurd ha (answered_same rfl)⟩
  · obtain ⟨r, hr, -⟩ := h.migrates.sealed hseed
    rw [if_neg hseed]
    refine ⟨fun _ => ⟨r, answered_succ.mpr hr⟩, fun _ => ⟨h.resolves, h.member, hseed, ?_, ?_⟩⟩
    · exact (migrates_iff.mp h.migrates).1
    · exact Option.isSome_iff_exists.mpr ⟨r, hr⟩

theorem accountPart_nil (hid : identityId = Uuid.nil) (lc : LegacyCredentials) (ref : AccountRef)
    (unresolved member : ε) (credentials : MigrationError → ε) (c : Calls) :
    ∃ err d, (accountPart w organizationId identityId lc ref unresolved member
      credentials).call c = (.error err, d) ∧ d.puts = c.puts := by
  rw [accountPart]
  cases organizationId ref.owner with
  | none => exact ⟨unresolved, c, rfl, rfl⟩
  | some org =>
    obtain ⟨err, d, hcall, hputs⟩ := newMember_nil (w := w) org member (Or.inl hid) c
    exact ⟨err, d, by rw [call_bind, hcall], hputs⟩

end Accounts

section Identities

variable {w : Outside} {vault : ℕ → Option GoString} {ε α : Type} {c c₁ : Calls}

/-- An identity is drawn, with an id and a subject. -/
structure IdentityDrawn (w : Outside) (c : Calls) : Prop where
  id : ∃ id, w.newV7 c.drawn = some id ∧ id ≠ Uuid.nil
  subject : (w.newSubject c.subjects).isSome

def afterIdentity (c : Calls) : Calls := ⟨c.drawn+1, c.subjects+1, c.puts⟩

theorem newIdentity_builds {t : IdentityType} {hash : Bytes} {err : ε}
    {f : Identity → Method Calls ε α} {ok strands : Prop} {had : List GoString}
    {refs : α → List GoString}
    (hf : ∀ i, i.id ≠ Uuid.nil → Builds vault (f i) (afterIdentity c) ok c₁ had refs strands)
    (hnil : ∀ i, i.id = Uuid.nil → ∃ err d, (f i).call (afterIdentity c) = (.error err, d) ∧
      d.puts = c.puts) :
    Builds vault (newIdentity w t hash err >>= f) c (IdentityDrawn w c ∧ ok) c₁ had refs
      (IdentityDrawn w c ∧ strands) := by
  have hfails (h : ¬IdentityDrawn w c) {m : Method Calls ε α} (hm : ∃ err d,
      m.call c = (.error err, d) ∧ d.puts = c.puts) : Builds vault m c (IdentityDrawn w c ∧ ok) c₁
      had refs (IdentityDrawn w c ∧ strands) :=
    builds_of_error (fun hb => h hb.1) (fun hv => h hv.1) hm
  cases hid : w.newV7 c.drawn with
  | none =>
    apply hfails
    · rintro ⟨⟨id, h, -⟩, -⟩
      rw [hid] at h
      cases h
    · refine ⟨err, c.draw 1, ?_, rfl⟩
      rw [newIdentity, newUuid]
      simp only [bind_assoc, call_get_bind, call_modify_bind, hid]
      rfl
  | some u =>
    have hdrawn : (newUuid w err).call c = (.ok u, c.draw 1) := by
      rw [newUuid, call_get_bind, call_modify_bind, hid]
      rfl
    cases hsub : w.newSubject c.subjects with
    | none =>
      apply hfails
      · rintro ⟨-, h⟩
        rw [hsub] at h
        cases h
      · refine ⟨err, { c.draw 1 with subjects := c.subjects+1 }, ?_, rfl⟩
        rw [newIdentity, bind_assoc, call_bind, hdrawn]
        simp only [bind_assoc, call_get_bind, call_modify_bind, Calls.draw, hsub]
        rfl
    | some subject =>
      have hcall : (newIdentity w t hash err).call c =
          (.ok ⟨u, subject, t, .active, hash⟩, afterIdentity c) := by
        rw [newIdentity, call_bind, hdrawn]
        simp only [call_get_bind, call_modify_bind, Calls.draw, hsub]
        rfl
      by_cases hu : u = Uuid.nil
      · apply hfails
        · rintro ⟨⟨id, h, hne⟩, -⟩
          rw [hid] at h
          exact hne (Option.some.inj h ▸ hu)
        · obtain ⟨err', d, hd, hputs⟩ := hnil ⟨u, subject, t, .active, hash⟩ hu
          exact ⟨err', d, by rw [call_bind, hcall]; exact hd, hputs⟩
      · have hyes : IdentityDrawn w c :=
          ⟨⟨u, hid, hu⟩, by rw [hsub]; rfl⟩
        apply (Builds.spent hcall rfl (hf ⟨u, subject, t, .active, hash⟩ hu)).congr
        · exact and_iff_right hyes
        · rfl
        · exact fun _ => and_iff_right hyes

end Identities

section Fuse

/-- The material of an account in a fusion: the primary's all, of another the public keys. -/
def Plan.material (plan : Plan) (ref : AccountRef) : LegacyCredentials :=
  if ref.key = plan.approval.primary then plan.credentials ref.key
  else { LegacyCredentials.empty with webAuthn := (plan.credentials ref.key).webAuthn }

/-- What an account adds to a fusion. -/
def Plan.join (plan : Plan) (res : Fused) (ref : AccountRef) (m : Membership)
    (migrated : MigratedCredentials) : Fused :=
  if ref.key = plan.approval.primary then { res with
    memberships := res.memberships ++ [m]
    credentials := res.credentials ++ migrated.credentials
    forcePasswordReset := migrated.forcePasswordReset }
  else { res with
    memberships := res.memberships ++ [m]
    credentials := res.credentials ++ migrated.credentials
    droppedFactors := res.droppedFactors ++ droppedOf ref.key (plan.credentials ref.key) }

variable {w : Outside} {vault : ℕ → Option GoString} {organizationId : GoString → Option Uuid}
  {identityId : Uuid}

theorem fuseAccount_eq (plan : Plan) (res : Fused) (ref : AccountRef) :
    fuseAccount w organizationId plan identityId res ref =
      accountPart w organizationId identityId (plan.material ref) ref
        (.unresolvedOrganization ref.owner) (.membership ref.owner)
        (if ref.key = plan.approval.primary then FusionError.primaryCredentials ref.key
          else FusionError.webAuthn ref.key) >>= fun p => pure (plan.join res ref p.1 p.2) := by
  rw [fuseAccount, accountPart]
  cases organizationId ref.owner with
  | none => rfl
  | some org =>
    simp only [Plan.material, Plan.join, bind_assoc, pure_bind]
    by_cases hprimary : ref.key = plan.approval.primary
    · simp only [if_pos hprimary]
      rfl
    · simp only [if_neg hprimary]
      rfl

theorem Plan.join_credentials (plan : Plan) (res : Fused) (ref : AccountRef) (m : Membership)
    (migrated : MigratedCredentials) :
    (plan.join res ref m migrated).credentials = res.credentials ++ migrated.credentials := by
  rw [Plan.join]
  split_ifs
  · rfl
  · rfl

variable (hput : ∀ n secret, w.put n secret = vault n) (hid : identityId ≠ Uuid.nil)
  (plan : Plan)

include hput hid

theorem fuseAccount_builds (res : Fused) (ref : AccountRef) (c : Calls) :
    Builds vault (fuseAccount w organizationId plan identityId res ref) c
      (AccountBuilt w vault organizationId plan.material c ref) (afterAccount plan.material c ref)
      (secretRefs res.credentials) (fun r => secretRefs r.credentials)
      (AccountVaulted w vault organizationId plan.material c ref) := by
  rw [fuseAccount_eq]
  apply (accountPart_builds hput hid plan.material c ref _ _ _).append
  intro p
  rw [Plan.join_credentials, secretRefs_append]

/-- The accounts of a fusion one after the other: where one fails, a seed that was put by it or
before it is left behind. -/
theorem fuseAccounts_builds (refs : List AccountRef) (res : Fused) (c : Calls) :
    Builds vault (fuseAccounts w organizationId plan identityId res refs) c
      (AllBuilt w vault organizationId plan.material c refs)
      (refs.foldl (afterAccount plan.material) c)
      (secretRefs res.credentials) (fun r => secretRefs r.credentials)
      (SeedStranded w vault organizationId plan.material c refs) := by
  induction refs generalizing res c with
  | nil =>
    refine ⟨fun _ => ⟨le_refl _, res, rfl, fun ref => (or_iff_left answered_self).symm⟩, fun h => ?_⟩
    exact absurd trivial h
  | cons r rs ih =>
    have hhead : Builds vault (fuseAccount w organizationId plan identityId res r) c
        (AccountBuilt w vault organizationId plan.material c r) (afterAccount plan.material c r)
        (secretRefs res.credentials) (fun r => secretRefs r.credentials)
        (AccountVaulted w vault organizationId plan.material c r) :=
      fuseAccount_builds hput hid plan res r c
    rw [fuseAccounts]
    by_cases hbuilt : AccountBuilt w vault organizationId plan.material c r
    · obtain ⟨hle, res', hcall, hrefs⟩ := hhead.returns hbuilt
      have htail := ih res' (afterAccount plan.material c r)
      have hrest : (fuseAccount w organizationId plan identityId res r >>= fun res =>
          fuseAccounts w organizationId plan identityId res rs).call c =
          (fuseAccounts w organizationId plan identityId res' rs).call
            (afterAccount plan.material c r) := by
        rw [call_bind, hcall]
      refine ⟨fun h => ?_, fun h => ?_⟩
      · obtain ⟨hle', res'', hcall', hrefs'⟩ := htail.returns h.2
        refine ⟨hle.trans hle', res'', hrest.trans hcall', fun ref => ?_⟩
        rw [hrefs', hrefs, or_assoc, List.foldl_cons, answered_trans hle hle']
      · have hrs : ¬AllBuilt w vault organizationId plan.material (afterAccount plan.material c r) rs :=
          fun hrs => h ⟨hbuilt, hrs⟩
        obtain ⟨err, d, hcall', hle', hstrands⟩ := htail.errs hrs
        refine ⟨err, d, hrest.trans hcall', hle.trans hle', ?_⟩
        -- the seed of this account or of one that follows
        rw [seedStranded_cons, hstrands, and_iff_left h, and_iff_right hbuilt, hbuilt.vaulted_iff,
          ← exists_or]
        exact exists_congr fun ref => (answered_trans hle hle').symm
    · obtain ⟨err, d, hcall, hle, hstrands⟩ := hhead.errs hbuilt
      apply Builds.failed hcall (fun h => hbuilt h.1) hle
      rw [← hstrands, seedStranded_cons]
      exact ⟨fun h => h.elim (·.1) fun h => absurd h.1 hbuilt, fun h => Or.inl ⟨h, fun h => hbuilt h.1⟩⟩

omit hput hid

theorem fuseAccounts_nil (hid : identityId = Uuid.nil) {refs : List AccountRef} (hne : refs ≠ [])
    (res : Fused) (c : Calls) : ∃ err d,
      (fuseAccounts w organizationId plan identityId res refs).call c = (.error err, d) ∧
        d.puts = c.puts := by
  cases refs with
  | nil => exact absurd rfl hne
  | cons r rs =>
    rw [fuseAccounts, fuseAccount_eq, bind_assoc, call_bind]
    obtain ⟨err, d, hcall, hputs⟩ : ∃ err d, (accountPart w organizationId identityId
        (plan.material r) r (.unresolvedOrganization r.owner) (.membership r.owner)
        (if r.key = plan.approval.primary then FusionError.primaryCredentials r.key
          else FusionError.webAuthn r.key)).call c = (.error err, d) ∧ d.puts = c.puts :=
      accountPart_nil hid (plan.material r) r _ _ _ c
    rw [hcall]
    exact ⟨err, d, rfl, hputs⟩

/-- The fusion accepts its plan: the approval and the group, and the hash of the group. -/
structure Accepts (plan : Plan) : Prop where
  approves : Approves plan
  valid : validateGroup plan.group = .ok ()
  hash : ∃ hash, hexDecode plan.group.emailHashHex = some hash ∧ hash ≠ []

theorem ofValidation_call {v : Except FusionError Unit} (h : v ≠ .ok ()) (c : Calls) :
    ∃ err, (ofValidation v).call c = (.error err, c) := by
  cases v with
  | ok _ => exact absurd rfl h
  | error err => exact ⟨err, rfl⟩

/-- A fusion puts the seed of its primary account; it stays where that account or one that follows
fails. -/
theorem fuse_builds (hput : ∀ n secret, w.put n secret = vault n) (c : Calls) :
    Builds vault (fuse w organizationId plan) c
      (Accepts plan ∧ IdentityDrawn w c ∧
        AllBuilt w vault organizationId plan.material (afterIdentity c) plan.group.accounts)
      (plan.group.accounts.foldl (afterAccount plan.material) (afterIdentity c)) []
      (fun fused => secretRefs fused.credentials)
      (Accepts plan ∧ IdentityDrawn w c ∧
        SeedStranded w vault organizationId plan.material (afterIdentity c)
          plan.group.accounts) := by
  have hrefused (h : ¬Accepts plan) {m : Fusing Fused} (hm : ∃ err, m.call c = (.error err, c)) :
      Builds vault m c (Accepts plan ∧ IdentityDrawn w c ∧
        AllBuilt w vault organizationId plan.material (afterIdentity c) plan.group.accounts)
      (plan.group.accounts.foldl (afterAccount plan.material) (afterIdentity c)) []
      (fun fused => secretRefs fused.credentials) (Accepts plan ∧ IdentityDrawn w c ∧
        SeedStranded w vault organizationId plan.material (afterIdentity c)
          plan.group.accounts) := by
    obtain ⟨err, hcall⟩ := hm
    exact builds_of_error (fun hb => h hb.1) (fun hv => h hv.1) ⟨err, c, hcall, rfl⟩
  rw [fuse]
  by_cases happroval : validateApproval plan = .ok ()
  · rw [happroval]
    by_cases hgroup : validateGroup plan.group = .ok ()
    · rw [hgroup]
      apply Builds.spent (d := c) rfl rfl
      apply Builds.spent (d := c) rfl rfl
      cases hhash : hexDecode plan.group.emailHashHex with
      | none =>
        apply hrefused
        · rintro ⟨-, -, hash, h, -⟩
          rw [hhash] at h
          cases h
        · exact ⟨.invalidEmailHash, rfl⟩
      | some hash =>
        by_cases hnil : hash = []
        · apply hrefused
          · rintro ⟨-, -, hash', h, hne⟩
            rw [hhash] at h
            exact hne (Option.some.inj h ▸ hnil)
          · exact ⟨.invalidEmailHash, by rw [call_refuseIf_bind, if_pos hnil]⟩
        · have haccepts : Accepts plan :=
            ⟨validateApproval_ok.mp happroval, hgroup, hash, hhash, hnil⟩
          have hne : plan.group.accounts ≠ [] := by
            intro he
            have hlen := (validateGroup_ok.mp hgroup).1
            rw [he] at hlen
            exact absurd hlen (by decide)
          apply Builds.refuse hnil
          apply (newIdentity_builds (fun i hi => fuseAccounts_builds hput hi plan
            plan.group.accounts ⟨i, [], [], false, []⟩ (afterIdentity c)) ?_).congr
          · exact and_iff_right haccepts
          · rfl
          · exact fun _ => and_iff_right haccepts
          · exact fun i hi => fuseAccounts_nil plan hi hne ⟨i, [], [], false, []⟩ (afterIdentity c)
    · apply hrefused fun h => hgroup h.valid
      obtain ⟨err, hcall⟩ := ofValidation_call hgroup c
      refine ⟨err, ?_⟩
      rw [call_bind, show (ofValidation (.ok ())).call c = (.ok (), c) from rfl]
      dsimp only
      rw [call_bind, hcall]
  · apply hrefused fun h => happroval (validateApproval_ok.mpr h.approves)
    obtain ⟨err, hcall⟩ := ofValidation_call happroval c
    exact ⟨err, by rw [call_bind, hcall]⟩

end Fuse

end Migration

end ArchGuard
