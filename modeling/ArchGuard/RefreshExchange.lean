import ArchGuard.OidcGrants
import ArchGuard.ReadCommittedFrame

/-! `RefreshExchanger.Exchange` statement by statement, for runs in which any number
of exchanges interleave. -/
namespace ArchGuard.Oidc
open ReadCommitted

structure ExchangeReq where
  org : Uuid
  presentedSecret : String
  newExpiry : Time
  draw : Draw
  deriving DecidableEq

/-- Where an exchange stands: the statement it runs next and what it has read. -/
inductive ExchangePc
  | getByHash (q : ExchangeReq)
  | lockRow (q : ExchangeReq) (id : Uuid)
  | setRotated (q : ExchangeReq) (tok successor : RefreshToken)
  | create (q : ExchangeReq) (tok successor : RefreshToken)
  | commitRotation (tok successor : RefreshToken)
  | revokeFamily (q : ExchangeReq) (tok : RefreshToken)
  | revokeRows (q : ExchangeReq) (tok : RefreshToken) (ids : List Uuid)
  | fail
  deriving DecidableEq

/-- The decision on the locked row: reuse, expiry or rotation. -/
def afterLock (q : ExchangeReq) (tok : RefreshToken) : ExchangePc :=
  if tok.tokenHash ≠ hashRefreshToken q.presentedSecret ∨ tok.organizationId ≠ q.org then .fail
  else match tok.checkReuse with
    | .error _ => .revokeFamily q tok
    | .ok () =>
      if !tok.usable (nowFromExpiry q.newExpiry) then .fail
      else match tok.rotate q.draw.id (hashRefreshToken q.draw.secret) q.newExpiry with
        | .error _ => .fail
        | .ok successor => .setRotated q tok successor

/-- The rows in the snapshot of `RevokeFamily`. -/
def familyIds (db : Db) (org familyId : Uuid) : List Uuid :=
  ((tokens db).filter fun r =>
    r.familyId = familyId ∧ r.organizationId = org ∧ r.status ≠ .revoked).map (·.id)

/-- `FOR UPDATE` and the family UPDATE act on the newest version of each row of their
snapshot. The audit event of a reuse goes to other tables, in the same transaction.
The unique index on `token_hash` could only make more exchanges fail. -/
def exchangeProgram : Program Row ExchangeReq ExchangePc where
  entry := .getByHash
  next
    | .getByHash q => .read fun db =>
      match getByHash db q.org (hashRefreshToken q.presentedSecret) with
      | some r => .lockRow q r.id
      | none => .fail
    | .lockRow q id => .update (.token id) .fail fun r => (some r, afterLock q r.1)
    | .setRotated q tok s => .update (.token tok.id) .fail fun r =>
      if r.1.organizationId = q.org then (some (setRow r .rotated), .create q tok s)
      else (some r, .fail)
    | .create q tok s =>
      if s.organizationId ≠ q.org then .abort
      else .insert (.token s.id) ⟨s.stored, s.stored_id⟩ (.commitRotation tok s) .fail
    | .commitRotation _ _ => .commit none
    | .revokeFamily q tok => .read fun db => .revokeRows q tok (familyIds db q.org tok.familyId)
    | .revokeRows q tok (id :: ids) => .update (.token id) (.revokeRows q tok ids) fun r =>
      (some (revokeRow q.org tok.familyId r), .revokeRows q tok ids)
    | .revokeRows _ _ [] => .commit none
    | .fail => .abort

abbrev ExchangeCfg := Cfg Row ExchangePc

def committed (c : ExchangeCfg) (id : Uuid) : Option RefreshToken :=
  (c.db.row (.token id)).map Subtype.val

/-- The owner of a token row's lock, and the row as the owner has it. -/
def locked (c : ExchangeCfg) (id : Uuid) : Option (ℕ × Option RefreshToken) :=
  (c.lock (.token id)).map fun l => (l.1, l.2.map Subtype.val)

/-- `r` is the committed version of its row. -/
def Committed (c : ExchangeCfg) (r : RefreshToken) : Prop := committed c r.id = some r

/-- Transaction `i` has locked the row of `r`, and has it as `r`. -/
def Held (c : ExchangeCfg) (i : ℕ) (r : RefreshToken) : Prop := locked c r.id = some (i, some r)

theorem Committed.inj {c : ExchangeCfg} {r s : RefreshToken} (hr : Committed c r)
    (hs : Committed c s) (h : r.id = s.id) : r = s := by
  unfold Committed at hr hs
  rw [h, hs, Option.some.injEq] at hr
  exact hr.symm

theorem Held.inj {c : ExchangeCfg} {i j : ℕ} {r s : RefreshToken} (hr : Held c i r)
    (hs : Held c j s) (h : r.id = s.id) : i = j ∧ r = s := by
  unfold Held at hr hs
  rw [h, hs, Option.some.injEq, Prod.mk.injEq, Option.some.injEq] at hr
  exact ⟨hr.1.symm, hr.2.symm⟩

theorem mem_tokens_iff_committed {c : ExchangeCfg} {r : RefreshToken} :
    r ∈ tokens c.db ↔ Committed c r := mem_tokens_iff_val

section Steps

variable {c : ExchangeCfg} {i j : ℕ} {id : Uuid} {r : RefreshToken} {l : ExchangePc}

theorem held_write {v : Row (.token id)} :
    Held ((c.write i (.token id) (some v)).goto i l) i r ↔ r = v.1 ∨ (r.id ≠ id ∧ Held c i r) := by
  simp only [Held, locked, Cfg.goto_lock, Cfg.write_lock]
  by_cases hk : r.id = id
  · subst hk
    simp only [Function.update_self, Option.map_some, Option.some.injEq, Prod.mk.injEq, true_and,
      ne_eq, not_true_eq_false, false_and, or_false]
    exact eq_comm
  · have hne : r ≠ v.1 := fun h => hk (h ▸ v.2)
    rw [Function.update_of_ne (by simpa using hk)]
    simp only [hne, false_or, hk, ne_eq, not_false_eq_true, true_and]

theorem viewRow_token (i : ℕ) (id : Uuid)
    (hl : ∀ k j v, c.lock k = some (j, v) → ∃ s, k = .token s.id ∧ Held c j s) :
    (∃ s, Held c i s ∧ s.id = id ∧ (c.viewRow i (.token id)).map Subtype.val = some s) ∨
      ((∀ s, Held c i s → s.id ≠ id) ∧
        (c.viewRow i (.token id)).map Subtype.val = committed c id) := by
  rcases c.viewRow_cases i (.token id) with ⟨v, hv, he⟩ | ⟨hn, he⟩
  · obtain ⟨s, hk, hs⟩ := hl _ _ _ hv
    obtain rfl : id = s.id := by simpa using hk
    refine Or.inl ⟨s, hs, rfl, ?_⟩
    simp only [Held, locked, hv, Option.map_some, Option.some.injEq, Prod.mk.injEq, true_and] at hs
    rw [he, hs]
  · refine Or.inr ⟨fun s hs hid => ?_, by rw [he]; rfl⟩
    subst hid
    obtain ⟨⟨j, v⟩, hv, hj⟩ := Option.map_eq_some_iff.mp hs
    rw [Prod.mk.injEq] at hj
    exact hn v (hj.1 ▸ hv)

theorem committed_commit {n : Option ExchangePc}
    (hl : ∀ k j v, c.lock k = some (j, v) → ∃ s, k = .token s.id ∧ Held c j s) :
    Committed (c.commit i n) r ↔ Held c i r ∨ (Committed c r ∧ ∀ s, Held c i s → s.id ≠ r.id) := by
  rcases viewRow_token i r.id hl with ⟨s, hs, hid, hv⟩ | ⟨hn, hv⟩
  · change (c.viewRow i (.token r.id)).map Subtype.val = some r ↔ _
    rw [hv, Option.some.injEq]
    constructor
    · rintro rfl
      exact Or.inl hs
    · rintro (hr | ⟨-, hr⟩)
      · exact (hs.inj hr hid).2
      · exact absurd hid (hr s hs)
  · change (c.viewRow i (.token r.id)).map Subtype.val = some r ↔ _
    rw [hv]
    exact ⟨fun h => Or.inr ⟨h, hn⟩, fun h => h.elim (fun h => absurd rfl (hn r h)) And.left⟩

theorem held_frame {c' : ExchangeCfg} (hf : Frame c c' j) : Held c' j r ↔ Held c j r := by
  have h (a b : ExchangeCfg) (hab : ∀ k v, a.lock k = some (j, v) → b.lock k = some (j, v))
      (ha : Held a j r) : Held b j r := by
    obtain ⟨⟨j', v⟩, hv, he⟩ := Option.map_eq_some_iff.mp ha
    obtain ⟨rfl, hr⟩ := Prod.mk.inj he
    simp only [Held, locked, hab _ _ hv, Option.map_some, hr]
  exact ⟨h c' c fun k v => (hf.lock k v).mp, h c c' fun k v => (hf.lock k v).mpr⟩

theorem committed_frame {c' : ExchangeCfg} {s : RefreshToken} (hf : Frame c c' j)
    (hs : Held c j s) : committed c' s.id = committed c s.id := by
  obtain ⟨⟨j', v⟩, hv, he⟩ := Option.map_eq_some_iff.mp hs
  obtain ⟨rfl, -⟩ := Prod.mk.inj he
  simp only [committed, hf.row _ _ hv]

end Steps

end ArchGuard.Oidc
