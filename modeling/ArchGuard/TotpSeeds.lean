import ArchGuard.TotpEnrollment

/-! The seeds in the vault against the credentials that refer to them, over every interleaving of
enrollments and removals. -/
namespace ArchGuard
open GoText SharedCalls TransitionRun

/-- The reference that a call answers for: its seed is in the vault, and no row refers to it yet. -/
def FactorPc.heldRef : FactorPc → Option GoString
  | .mint _ _ ref => some ref
  | .create _ _ cred => some cred.secretRef
  | .compensate ref _ => some ref
  | _ => none

def Credential.refersTo (c : Credential) (ref : GoString) : Bool := c.type = .totp && c.secretRef = ref

def FactorSite.inserts (t : FactorSite) (w : Answer) (cred : Credential) : Bool :=
  cred.wellFormed && w.stored && acceptsCredential t.rows cred

abbrev FactorState := Site FactorSite FactorPc

/-- Every seed is referenced by exactly one row, unless a call has just vaulted it and answers for it;
every TOTP row refers to a seed; and no enrollment has made two credentials. -/
structure Consistent (s : FactorState) : Prop where
  referenced : ∀ ref, (s.shared.vault ref).isSome = true →
    (∀ i pc, s.call i = some pc → pc.heldRef ≠ some ref) →
      (s.shared.rows.filter fun c => c.refersTo ref).length = 1
  vaulted : ∀ c ∈ s.shared.rows, c.type = .totp → (s.shared.vault c.secretRef).isSome = true
  once : (s.shared.made.map Prod.fst).Nodup

/-- No committed removal is of a TOTP credential. -/
def Admissible (s : FactorState) (e : Event FactorRequest Answer) : Prop :=
  ∀ i w targetIdentity credId, e = .step i w →
    s.call i = some (.remove targetIdentity credId) → w.committed = true →
      ∀ c ∈ s.shared.rows, c.id = credId → c.identityId = targetIdentity → c.type ≠ .totp

/-- What a statement does to the seeds and the rows. -/
inductive Effect (w : Answer) (l l' : FactorPc) (t t' : FactorSite) : Prop
  | quiet (hvault : t'.vault = t.vault) (hrows : t'.rows = t.rows) (hissued : t'.issued = t.issued)
    (hmade : t'.made = t.made) (hheld : l'.heldRef = l.heldRef)
    (hremove : ∀ targetIdentity credId, l = .remove targetIdentity credId → w.committed = true →
      t.holds targetIdentity credId = false)
  | vaulted (identityId : Uuid) (enr : Enrollment) (ref secret : GoString) (hl : l = .put identityId enr)
    (hfresh : ref ∉ t.issued) (hvault : t'.vault = Function.update t.vault ref (some secret))
    (hissued : t'.issued = ref :: t.issued) (hrows : t'.rows = t.rows) (hmade : t'.made = t.made)
    (hheld : l'.heldRef = some ref)
  | compensated (ref : GoString) (err : FactorError) (hl : l = .compensate ref err)
    (hvault : t'.vault = Function.update t.vault ref none) (hissued : t'.issued = t.issued)
    (hrows : t'.rows = t.rows) (hmade : t'.made = t.made) (hheld : l'.heldRef = none)
  | created (identityId : Uuid) (enr : Enrollment) (cred : Credential)
    (hl : l = .create identityId enr cred) (hinserts : t.inserts w cred = true)
    (hvault : t'.vault = t.vault) (hissued : t'.issued = t.issued)
    (hrows : t'.rows = t.rows ++ [cred]) (hmade : t'.made = t.made ++ [(enr, cred.id)])
    (hheld : l'.heldRef = none)
  | removed (targetIdentity credId : Uuid) (hl : l = .remove targetIdentity credId)
    (hcommitted : w.committed = true) (hholds : t.holds targetIdentity credId = true)
    (hvault : t'.vault = t.vault) (hissued : t'.issued = t.issued)
    (hrows : t'.rows = t.rows.filter fun c => !(c.id = credId && c.identityId = targetIdentity))
    (hmade : t'.made = t.made) (hheld : l'.heldRef = none)

section Effects

variable {valid : GoString → GoString → Time → Bool} {w : Answer} {l l' : FactorPc}
  {t t' : FactorSite}

theorem effect_of_next (h : (factorProgram valid).next l w t = some (l', t')) :
    Effect w l l' t t' := by
  cases l with
  | generate identityId =>
    simp only [factorProgram] at h
    split_ifs at h
    · cases h
      exact .quiet rfl rfl rfl rfl rfl nofun
    · split at h
      · cases h
        exact .quiet rfl rfl rfl rfl rfl nofun
      · cases h
        exact .quiet rfl rfl rfl rfl rfl nofun
  | hold identityId enr =>
    cases h
    exact .quiet rfl rfl rfl rfl rfl nofun
  | lookup identityId code =>
    simp only [factorProgram] at h
    split at h
    · cases h
      exact .quiet rfl rfl rfl rfl rfl nofun
    · cases h
      exact .quiet rfl rfl rfl rfl rfl nofun
  | confirm identityId enr code =>
    simp only [factorProgram] at h
    split_ifs at h
    all_goals
      cases h
      exact .quiet rfl rfl rfl rfl rfl nofun
  | put identityId enr =>
    simp only [factorProgram] at h
    split at h
    · cases h
      exact .quiet rfl rfl rfl rfl rfl nofun
    · rename_i ref hreff
      split_ifs at h with hissued
      cases h
      exact .vaulted identityId enr ref enr.secret rfl hissued rfl rfl rfl rfl rfl
  | mint identityId enr ref =>
    simp only [factorProgram] at h
    split at h
    · cases h
      exact .quiet rfl rfl rfl rfl rfl nofun
    · rename_i cred hcred
      cases h
      exact .quiet rfl rfl rfl rfl (congrArg some (totpCredential_ok hcred).2.1) nofun
  | create identityId enr cred =>
    simp only [factorProgram] at h
    split_ifs at h with hformed hstored
    · cases h
      exact .quiet rfl rfl rfl rfl rfl nofun
    · cases h
      exact .quiet rfl rfl rfl rfl rfl nofun
    · cases h
      refine .created identityId enr cred rfl ?_ rfl rfl rfl rfl rfl
      simp only [FactorSite.inserts]
      cases hw : w.stored <;> simp_all
  | compensate ref err =>
    cases h
    exact .compensated ref err rfl rfl rfl rfl rfl rfl
  | forget identityId =>
    cases h
    exact .quiet rfl rfl rfl rfl rfl nofun
  | remove targetIdentity credId =>
    simp only [factorProgram] at h
    split_ifs at h with hholds hcommitted
    · cases h
      refine .quiet rfl rfl rfl rfl rfl ?_
      rintro _ _ ⟨⟩ _
      simpa using hholds
    · cases h
      refine .quiet rfl rfl rfl rfl rfl ?_
      rintro _ _ ⟨⟩ hw
      rw [hw] at hcommitted
      cases hcommitted
    · cases h
      exact .removed targetIdentity credId rfl (by simpa using hcommitted) (by simpa using hholds)
        rfl rfl rfl rfl rfl
  | returned err => cases h

theorem type_of_created {identityId : Uuid} {enr : Enrollment} {cred : Credential}
    (h : (factorProgram valid).next l w t = some (.create identityId enr cred, t')) :
    cred.type = .totp ∧ cred.identityId = enr.identityId := by
  cases l with
  | mint identityId enr ref =>
    simp only [factorProgram] at h
    split at h
    · cases h
    · rename_i hcred
      cases h
      exact ⟨(totpCredential_ok hcred).1, (totpCredential_ok hcred).2.2⟩
  | generate identityId =>
    simp only [factorProgram] at h
    split_ifs at h
    · cases h
    · split at h <;> cases h
  | lookup identityId code =>
    simp only [factorProgram] at h
    split at h <;> cases h
  | put identityId enr =>
    simp only [factorProgram] at h
    split at h
    · cases h
    · split_ifs at h
      cases h
  | confirm identityId enr code =>
    simp only [factorProgram] at h
    split_ifs at h <;> cases h
  | create identityId enr cred =>
    simp only [factorProgram] at h
    split_ifs at h <;> cases h
  | remove targetIdentity credId =>
    simp only [factorProgram] at h
    split_ifs at h <;> cases h
  | hold identityId enr => cases h
  | compensate ref err => cases h
  | forget identityId => cases h
  | returned err => cases h

end Effects

/-- The table has no id twice, and the vault knows every reference that is in use. -/
structure Orderly (t : FactorSite) : Prop where
  ids : (t.rows.map Credential.id).Nodup
  issued : ∀ ref, (t.vault ref).isSome = true → ref ∈ t.issued
  rowIssued : ∀ c ∈ t.rows, c.type = .totp → c.secretRef ∈ t.issued

/-- What a call may rely on: the seed it answers for is there, and nothing refers to it. -/
structure Answers (t : FactorSite) (l : FactorPc) : Prop where
  vaulted : ∀ ref, l.heldRef = some ref → (t.vault ref).isSome = true
  unreferenced : ∀ ref, l.heldRef = some ref → ∀ c ∈ t.rows, c.refersTo ref = false
  typed : ∀ identityId enr cred, l = .create identityId enr cred →
    cred.type = .totp ∧ cred.identityId = enr.identityId

/-- Both calls answer for the same seed. -/
def Sharing (l m : FactorPc) : Prop := ∃ ref, l.heldRef = some ref ∧ m.heldRef = some ref

section Steps

variable {w : Answer} {l l' m : FactorPc} {t t' : FactorSite}

theorem refersTo_iff {c : Credential} {ref : GoString} :
    c.refersTo ref = true ↔ c.type = .totp ∧ c.secretRef = ref := by
  simp [Credential.refersTo]

theorem accepted_of_inserts {cred c : Credential} (h : t.inserts w cred = true) (hc : c ∈ t.rows) :
    c.id ≠ cred.id ∧ (cred.type = .totp → c.type = .totp → c.identityId ≠ cred.identityId) := by
  rw [FactorSite.inserts, Bool.and_eq_true, acceptsCredential, List.all_eq_true] at h
  have hkeys := h.2 c hc
  simp only [Bool.and_eq_true, Bool.or_eq_true, decide_eq_true_eq] at hkeys
  refine ⟨hkeys.1, fun htotp hctotp hidentity => ?_⟩
  simp [htotp, hctotp, hidentity] at hkeys

theorem Answers.of_none (h : l.heldRef = none) : Answers t l := by
  have hno (ref : GoString) (hheld : l.heldRef = some ref) : False := by
    rw [h] at hheld
    cases hheld
  refine ⟨fun ref hheld => (hno ref hheld).elim, fun ref hheld => (hno ref hheld).elim, ?_⟩
  rintro identityId enr cred rfl
  cases h

theorem Orderly.effect (h : Orderly t) (hl : Answers t l) (he : Effect w l l' t t') :
    Orderly t' := by
  cases he with
  | quiet hvault hrows hissued hmade hheld hremove =>
    refine ⟨hrows ▸ h.ids, fun ref => ?_, fun c hc => ?_⟩
    · rw [hvault, hissued]
      exact h.issued ref
    · rw [hrows] at hc
      rw [hissued]
      exact h.rowIssued c hc
  | vaulted identityId enr ref secret hpc hfresh hvault hissued hrows hmade hheld =>
    refine ⟨hrows ▸ h.ids, fun ref' href => ?_, fun c hc htotp => ?_⟩
    · rw [hissued]
      by_cases heq : ref' = ref
      · rw [heq]
        exact List.mem_cons_self
      · rw [hvault, Function.update_of_ne heq] at href
        exact List.mem_cons_of_mem ref (h.issued ref' href)
    · rw [hrows] at hc
      rw [hissued]
      exact List.mem_cons_of_mem ref (h.rowIssued c hc htotp)
  | compensated ref err hpc hvault hissued hrows hmade hheld =>
    refine ⟨hrows ▸ h.ids, fun ref' href => ?_, fun c hc htotp => ?_⟩
    · rw [hissued]
      by_cases heq : ref' = ref
      · rw [hvault, heq, Function.update_self] at href
        cases href
      · rw [hvault, Function.update_of_ne heq] at href
        exact h.issued ref' href
    · rw [hrows] at hc
      rw [hissued]
      exact h.rowIssued c hc htotp
  | created identityId enr cred hpc hinserts hvault hissued hrows hmade hheld =>
    have hnew : ∀ c ∈ t.rows, c.id ≠ cred.id := fun c hc => (accepted_of_inserts hinserts hc).1
    refine ⟨?_, fun ref => ?_, fun c hc htotp => ?_⟩
    · rw [hrows, List.map_append, List.map_singleton]
      apply List.Nodup.append h.ids (List.nodup_singleton _)
      intro id hid hcred
      obtain ⟨c, hc, rfl⟩ := List.mem_map.mp hid
      exact hnew c hc (List.mem_singleton.mp hcred)
    · rw [hvault, hissued]
      exact h.issued ref
    · rw [hissued]
      rw [hrows] at hc
      rcases List.mem_append.mp hc with hc | hc
      · exact h.rowIssued c hc htotp
      · rw [List.mem_singleton.mp hc]
        exact h.issued _ (hl.vaulted _ (by rw [hpc]; rfl))
  | removed targetIdentity credId hpc hcommitted hholds hvault hissued hrows hmade hheld =>
    refine ⟨?_, fun ref => ?_, fun c hc htotp => ?_⟩
    · rw [hrows]
      exact h.ids.sublist (List.filter_sublist.map _)
    · rw [hvault, hissued]
      exact h.issued ref
    · rw [hrows] at hc
      rw [hissued]
      exact h.rowIssued c (List.mem_of_mem_filter hc) htotp

theorem Answers.own (ht : Orderly t) (hl : Answers t l) (he : Effect w l l' t t')
    (htyped : ∀ identityId enr cred, l' = .create identityId enr cred →
      cred.type = .totp ∧ cred.identityId = enr.identityId) :
    Answers t' l' := by
  cases he with
  | quiet hvault hrows hissued hmade hheld hremove =>
    refine ⟨fun ref href => ?_, fun ref href => ?_, htyped⟩
    · rw [hvault]
      exact hl.vaulted ref (hheld ▸ href)
    · rw [hrows]
      exact hl.unreferenced ref (hheld ▸ href)
  | vaulted identityId enr ref secret hpc hfresh hvault hissued hrows hmade hheld =>
    refine ⟨fun ref' href => ?_, fun ref' href c hc => ?_, htyped⟩
    · obtain rfl := Option.some.inj (hheld.symm.trans href)
      rw [hvault, Function.update_self]
      rfl
    · obtain rfl := Option.some.inj (hheld.symm.trans href)
      -- the reference is new to the vault, so no row can have it
      rw [Bool.eq_false_iff]
      intro hrefers
      obtain ⟨htotp, hsecret⟩ := refersTo_iff.mp hrefers
      exact hfresh (hsecret ▸ ht.rowIssued c (hrows ▸ hc) htotp)
  | compensated ref err hpc hvault hissued hrows hmade hheld => exact .of_none hheld
  | created identityId enr cred hpc hinserts hvault hissued hrows hmade hheld =>
    exact .of_none hheld
  | removed targetIdentity credId hpc hcommitted hholds hvault hissued hrows hmade hheld =>
    exact .of_none hheld

theorem Answers.other (hm : Answers t m) (hapart : ¬Sharing l m) (he : Effect w l l' t t') :
    Answers t' m := by
  cases he with
  | quiet hvault hrows hissued hmade hheld hremove =>
    exact ⟨hvault ▸ hm.vaulted, hrows ▸ hm.unreferenced, hm.typed⟩
  | vaulted identityId enr ref secret hpc hfresh hvault hissued hrows hmade hheld =>
    refine ⟨fun ref' href => ?_, hrows ▸ hm.unreferenced, hm.typed⟩
    rw [hvault]
    by_cases heq : ref' = ref
    · rw [heq, Function.update_self]
      rfl
    · rw [Function.update_of_ne heq]
      exact hm.vaulted ref' href
  | compensated ref err hpc hvault hissued hrows hmade hheld =>
    refine ⟨fun ref' href => ?_, hrows ▸ hm.unreferenced, hm.typed⟩
    have hne : ref' ≠ ref := by
      rintro rfl
      exact hapart ⟨ref', by rw [hpc]; rfl, href⟩
    rw [hvault, Function.update_of_ne hne]
    exact hm.vaulted ref' href
  | created identityId enr cred hpc hinserts hvault hissued hrows hmade hheld =>
    refine ⟨hvault ▸ hm.vaulted, fun ref href c hc => ?_, hm.typed⟩
    rw [hrows] at hc
    rcases List.mem_append.mp hc with hc | hc
    · exact hm.unreferenced ref href c hc
    · rw [List.mem_singleton.mp hc, Bool.eq_false_iff]
      intro hrefers
      exact hapart ⟨ref, by rw [hpc, ← (refersTo_iff.mp hrefers).2]; rfl, href⟩
  | removed targetIdentity credId hpc hcommitted hholds hvault hissued hrows hmade hheld =>
    refine ⟨hvault ▸ hm.vaulted, fun ref href c hc => ?_, hm.typed⟩
    rw [hrows] at hc
    exact hm.unreferenced ref href c (List.mem_of_mem_filter hc)

/-- A call that comes to answer for a seed does so for a new one. -/
theorem not_sharing (ht : Orderly t) (hm : Answers t m) (hapart : ¬Sharing l m)
    (he : Effect w l l' t t') : ¬Sharing l' m := by
  rintro ⟨ref, hl', hm'⟩
  cases he with
  | quiet hvault hrows hissued hmade hheld hremove => exact hapart ⟨ref, hheld ▸ hl', hm'⟩
  | vaulted identityId enr ref' secret hpc hfresh hvault hissued hrows hmade hheld =>
    obtain rfl := Option.some.inj (hheld.symm.trans hl')
    exact hfresh (ht.issued ref' (hm.vaulted ref' hm'))
  | compensated ref' err hpc hvault hissued hrows hmade hheld =>
    rw [hheld] at hl'
    cases hl'
  | created identityId enr cred hpc hinserts hvault hissued hrows hmade hheld =>
    rw [hheld] at hl'
    cases hl'
  | removed targetIdentity credId hpc hcommitted hholds hvault hissued hrows hmade hheld =>
    rw [hheld] at hl'
    cases hl'

end Steps

section Runs

variable {valid : GoString → GoString → Time → Bool} {s s' : FactorState}
  {e : Event FactorRequest Answer}

/-- What every step keeps, admissible or not. -/
def Ordered (s : FactorState) : Prop := Holds Orderly Answers s ∧ Apart Sharing s

theorem heldRef_entry (q : FactorRequest) : ((factorProgram valid).entry q).heldRef = none := by
  cases q <;> rfl

theorem Ordered.exec (h : Ordered s) (he : exec (factorProgram valid) s e = some s') : Ordered s' := by
  obtain ⟨hholds, hapart⟩ := h
  have hapart_of {i j : ℕ} {l m : FactorPc} (hji : j ≠ i) (hl : s.call i = some l)
      (hm : s.call j = some m) : ¬Sharing l m := hapart i j l m hji.symm hl hm
  constructor
  · apply hholds.exec he
    · intro i q _
      exact .of_none (heldRef_entry q)
    · intro i w l l' t _ hl hnext
      have heffect := effect_of_next hnext
      refine ⟨hholds.shared.effect (hholds.call i l hl) heffect,
        (hholds.call i l hl).own hholds.shared heffect ?_⟩
      rintro identityId enr cred rfl
      exact type_of_created hnext
    · intro i w l l' t _ hl hnext j m hji hm
      exact (hholds.call j m hm).other (hapart_of hji hl hm) (effect_of_next hnext)
  · apply hapart.exec (fun l m ⟨ref, hl, hm⟩ => ⟨ref, hm, hl⟩) he
    · rintro i q _ j m _ _ ⟨ref, hentry, -⟩
      rw [heldRef_entry] at hentry
      cases hentry
    · intro i w l l' t _ hl hnext j m hji hm
      exact not_sharing hholds.shared (hholds.call j m hm) (hapart_of hji hl hm)
        (effect_of_next hnext)

/-- The credentials that the enrollments have made are still there. -/
def Kept (t : FactorSite) : Prop :=
  ∀ m ∈ t.made, ∃ c ∈ t.rows, c.id = m.2 ∧ c.type = .totp ∧ c.identityId = m.1.identityId

theorem Kept.exec (hk : Kept s.shared) (ho : Ordered s) (hok : Admissible s e)
    (he : exec (factorProgram valid) s e = some s') : Kept s'.shared := by
  cases e with
  | start i q =>
    obtain ⟨-, rfl⟩ := exec_start.mp he
    exact hk
  | step i w =>
    obtain ⟨l, l', t, hl, hnext, rfl⟩ := exec_step.mp he
    rw [goto_shared]
    cases effect_of_next hnext with
    | quiet hvault hrows hissued hmade hheld hremove =>
      rw [Kept, hmade, hrows]
      exact hk
    | vaulted identityId enr ref secret hpc hfresh hvault hissued hrows hmade hheld =>
      rw [Kept, hmade, hrows]
      exact hk
    | compensated ref err hpc hvault hissued hrows hmade hheld =>
      rw [Kept, hmade, hrows]
      exact hk
    | created identityId enr cred hpc hinserts hvault hissued hrows hmade hheld =>
      obtain ⟨htotp, hidentity⟩ := (ho.1.call i l hl).typed identityId enr cred hpc
      rw [Kept, hmade, hrows]
      intro m hm
      rcases List.mem_append.mp hm with hm | hm
      · obtain ⟨c, hc, hrow⟩ := hk m hm
        exact ⟨c, List.mem_append_left _ hc, hrow⟩
      · rw [List.mem_singleton.mp hm]
        exact ⟨cred, List.mem_append_right _ (List.mem_singleton_self _), rfl, htotp, hidentity⟩
    | removed targetIdentity credId hpc hcommitted hholds hvault hissued hrows hmade hheld =>
      subst hpc
      rw [Kept, hmade, hrows]
      intro m hm
      obtain ⟨c, hc, hid, htotp, hidentity⟩ := hk m hm
      refine ⟨c, List.mem_filter.mpr ⟨hc, ?_⟩, hid, htotp, hidentity⟩
      -- the removal is of another factor
      rw [Bool.not_eq_true', Bool.and_eq_false_iff, decide_eq_false_iff_not, decide_eq_false_iff_not,
        ← not_and_or]
      rintro ⟨hcid, hcidentity⟩
      exact hok i w targetIdentity credId rfl hl hcommitted c hc hcid hcidentity htotp

/-- No call answers for the seed. -/
def Unheld (s : FactorState) (ref : GoString) : Prop :=
  ∀ i pc, s.call i = some pc → pc.heldRef ≠ some ref

end Runs

section Samples

def FactorSite.empty : FactorSite := ⟨0, fun _ => none, fun _ => none, [], [], []⟩

theorem consistent_empty : Consistent (Site.idle FactorSite.empty) := ⟨nofun, nofun, List.nodup_nil⟩

/-- The world answers, with the seed, the reference and the UUID of the number. -/
def answer (n : ℕ) : Answer :=
  ⟨some [UInt8.ofNat n, 1], 0, some [UInt8.ofNat n, 2], some (BitVec.ofNat 128 (n+10)), true, true⟩

/-- Call 0 begins an enrollment of the first identity. -/
def beginning : List (Event FactorRequest Answer) :=
  [.start 0 (.begin 1), .step 0 (answer 0), .step 0 (answer 0)]

/-- Call 1 finishes it. -/
def enrolling : List (Event FactorRequest Answer) :=
  beginning ++ .start 1 (.finish 1 []) :: List.replicate 6 (.step 1 (answer 1))

def removing : List (Event FactorRequest Answer) :=
  enrolling ++ [.start 2 (.remove 1 11), .step 2 (answer 2)]

/-- Where a run from the empty site ends, every code being right. -/
def ended (es : List (Event FactorRequest Answer)) : FactorState :=
  (run (exec (factorProgram fun _ _ _ => true)) (Site.idle .empty) es).getD (Site.idle .empty)

end Samples

end ArchGuard
