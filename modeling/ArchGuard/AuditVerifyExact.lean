import ArchGuard.AuditChain

/-! `VerifyChain` on any list of events, also one that no append wrote: which position it reports,
and why. -/
namespace ArchGuard.Audit

/-- A sealed event as it may be handed in: its number is any `int64`. -/
structure RawEvent where
  event : AuditEvent
  seq : ℤ
  prevHash : Bytes
  hash : Bytes

variable (nfc : GoText.GoString → GoText.GoString)

/-- `SealEvent`, at any `int64`. -/
def sealRaw (event : AuditEvent) (prevHash : Bytes) (seq : ℤ) : Except AuditError RawEvent :=
  if prevHash.length ≠ auditHashSize then .error .invalidPrevHash
  else if seq < 1 then .error .invalidSeq
  else .ok ⟨event, seq, prevHash, linkHash nfc prevHash event⟩

/-- The loop of `VerifyChain` from position `i` on. -/
def rawDivergence : (prev : Bytes) → (i : ℕ) → List RawEvent → Option VerifyReport
  | _, _, [] => none
  | prev, i, e :: events =>
    let expected : ℕ := i+1
    if e.seq ≠ expected then some (diverged expected .removed
      ("seq não consecutivo: esperado " ++ toString expected ++ ", veio " ++ toString e.seq))
    else if e.prevHash ≠ prev then some (diverged e.seq.toNat .brokenChain
      ("prev_hash do evento " ++ toString e.seq ++ " não encadeia com o hash anterior"))
    else match sealRaw nfc e.event e.prevHash e.seq with
      | .error err => some (diverged e.seq.toNat .altered
          ("recomputação do evento " ++ toString e.seq ++ " falhou: " ++ err.text))
      | .ok recomputed =>
        if recomputed.hash ≠ e.hash then some (diverged e.seq.toNat .altered
          ("conteúdo do evento " ++ toString e.seq ++ " não corresponde ao hash armazenado"))
        else rawDivergence e.hash (i+1) events

def verifyRaw (genesis : Bytes) (events : List RawEvent) : VerifyReport :=
  (rawDivergence nfc genesis 0 events).getD (okReport events.length 0)

/-- The hash that position `i` has to link to. -/
def precedingHash (genesis : Bytes) (events : List RawEvent) : ℕ → Bytes
  | 0 => genesis
  | i+1 => ((events[i]?).map RawEvent.hash).getD []

def Recomputes (e : RawEvent) : Prop :=
  ∃ recomputed, sealRaw nfc e.event e.prevHash e.seq = .ok recomputed ∧ recomputed.hash = e.hash

/-- The first of the checks of an event that fails, if one does. -/
structure FailsFirst (prev : Bytes) (i : ℕ) (e : RawEvent) (kind : DivergenceKind) : Prop where
  sequence : kind = .removed ↔ e.seq ≠ i+1
  link : kind = .brokenChain ↔ e.seq = i+1 ∧ e.prevHash ≠ prev
  hash : kind = .altered ↔ e.seq = i+1 ∧ e.prevHash = prev ∧ ¬Recomputes nfc e
  some_check : kind = .removed ∨ kind = .brokenChain ∨ kind = .altered

def Passes (prev : Bytes) (i : ℕ) (e : RawEvent) : Prop :=
  e.seq = i+1 ∧ e.prevHash = prev ∧ Recomputes nfc e

variable {nfc}

section Loop

variable {prev : Bytes} {i : ℕ} {e : RawEvent} {events : List RawEvent} {kind : DivergenceKind}

theorem FailsFirst.not_passes (h : FailsFirst nfc prev i e kind) : ¬Passes nfc prev i e := by
  rintro ⟨hseq, hlink, hhash⟩
  rcases h.some_check with hkind | hkind | hkind
  · exact h.sequence.mp hkind hseq
  · exact (h.link.mp hkind).2 hlink
  · exact (h.hash.mp hkind).2.2 hhash

/-- One turn of the loop: it goes on behind an event that passes, and reports any other. -/
theorem rawDivergence_cons (prev : Bytes) (i : ℕ) (e : RawEvent) (events : List RawEvent) :
    (Passes nfc prev i e ∧
        rawDivergence nfc prev i (e :: events) = rawDivergence nfc e.hash (i+1) events) ∨
      ∃ kind detail, rawDivergence nfc prev i (e :: events) = some (diverged (i+1) kind detail) ∧
        FailsFirst nfc prev i e kind := by
  rw [rawDivergence]
  by_cases hseq : e.seq = i+1
  · have hnat : e.seq.toNat = i+1 := by omega
    have hexpected : ¬e.seq ≠ ((i+1 : ℕ) : ℤ) := by omega
    by_cases hlink : e.prevHash = prev
    · simp only [hexpected, hlink, ne_eq, not_true_eq_false, if_false, hnat]
      cases hsealed : sealRaw nfc e.event prev e.seq with
      | error err =>
        have hhash : ¬Recomputes nfc e := by
          rintro ⟨recomputed, hok, -⟩
          rw [hlink, hsealed] at hok
          cases hok
        exact Or.inr ⟨.altered, _, rfl, by constructor <;> simp [hseq, hlink, hhash]⟩
      | ok recomputed =>
        by_cases hsame : recomputed.hash = e.hash
        · refine Or.inl ⟨⟨hseq, hlink, recomputed, ?_, hsame⟩, ?_⟩
          · rw [hlink, hsealed]
          · simp only [hsame, not_true_eq_false, if_false]
        · have hhash : ¬Recomputes nfc e := by
            rintro ⟨other, hok, hother⟩
            rw [hlink, hsealed] at hok
            obtain rfl := Except.ok.inj hok
            exact hsame hother
          simp only [hsame, not_false_eq_true, if_true]
          exact Or.inr ⟨.altered, _, rfl, by constructor <;> simp [hseq, hlink, hhash]⟩
    · simp only [hexpected, hlink, ne_eq, not_false_eq_true, if_false, if_true, hnat]
      exact Or.inr ⟨.brokenChain, _, rfl, by constructor <;> simp [hseq, hlink]⟩
  · have hexpected : e.seq ≠ ((i+1 : ℕ) : ℤ) := by omega
    simp only [hexpected, ne_eq, not_false_eq_true, if_true]
    exact Or.inr ⟨.removed, _, rfl, by constructor <;> simp [hseq]⟩

theorem precedingHash_succ (prev : Bytes) (e : RawEvent) (events : List RawEvent) (j : ℕ) :
    precedingHash prev (e :: events) (j+1) = precedingHash e.hash events j := by
  cases j with
  | zero => rfl
  | succ j => simp only [precedingHash, List.getElem?_cons_succ]

theorem rawDivergence_spec (prev : Bytes) (i : ℕ) (events : List RawEvent) :
    (rawDivergence nfc prev i events = none ∧
        ∀ j e, events[j]? = some e → Passes nfc (precedingHash prev events j) (i+j) e) ∨
      ∃ j e kind detail, rawDivergence nfc prev i events = some (diverged (i+j+1) kind detail) ∧
        events[j]? = some e ∧ FailsFirst nfc (precedingHash prev events j) (i+j) e kind ∧
        ∀ k e', k < j → events[k]? = some e' →
          Passes nfc (precedingHash prev events k) (i+k) e' := by
  induction events generalizing prev i with
  | nil => exact Or.inl ⟨rfl, fun j e h => by simp at h⟩
  | cons e events ih =>
    rcases rawDivergence_cons prev i e events with ⟨hpass, hloop⟩ | ⟨kind, detail, hloop, hfails⟩
    · -- the first event passes: a position behind it is one of the rest
      have hshift (j : ℕ) : i+(j+1) = i+1+j := by omega
      rcases ih e.hash (i+1) with ⟨hnone, hall⟩ | ⟨j, e', kind, detail, hsome, he', hfails, hbefore⟩
      · refine Or.inl ⟨hloop.trans hnone, ?_⟩
        intro j e' he'
        cases j with
        | zero =>
          obtain rfl : e = e' := by simpa using he'
          exact hpass
        | succ j =>
          rw [precedingHash_succ, hshift]
          exact hall j e' (by simpa using he')
      · refine Or.inr ⟨j+1, e', kind, detail, ?_, by simpa using he', ?_, ?_⟩
        · rw [hloop, hsome, ← hshift]
        · rw [precedingHash_succ, hshift]
          exact hfails
        · intro k e'' hk he''
          cases k with
          | zero =>
            obtain rfl : e = e'' := by simpa using he''
            exact hpass
          | succ k =>
            rw [precedingHash_succ, hshift]
            exact hbefore k e'' (by omega) (by simpa using he'')
    · exact Or.inr ⟨0, e, kind, detail, hloop, rfl, hfails, fun k e' hk => absurd hk (by omega)⟩

end Loop

/-- The report is OK exactly if at every position the number, the link and the hash are right;
otherwise it names the least position at which one of them is not, and the first that is not
there. -/
theorem verifyChain_exact (genesis : Bytes) (events : List RawEvent) :
    ((verifyRaw nfc genesis events).ok = true ↔
        ∀ i e, events[i]? = some e → Passes nfc (precedingHash genesis events i) i e) ∧
      ((verifyRaw nfc genesis events).ok = false →
        ∃ i e, (verifyRaw nfc genesis events).firstDivergence = i+1 ∧ events[i]? = some e ∧
          FailsFirst nfc (precedingHash genesis events i) i e (verifyRaw nfc genesis events).kind ∧
          ¬Passes nfc (precedingHash genesis events i) i e ∧
          ∀ j e', j < i → events[j]? = some e' → Passes nfc (precedingHash genesis events j) j e') := by
  rw [verifyRaw]
  rcases @rawDivergence_spec nfc genesis 0 events with
    ⟨hnone, hall⟩ | ⟨i, e, kind, detail, hsome, he, hfails, hbefore⟩
  · simp only [Nat.zero_add] at hall
    rw [hnone, Option.getD_none]
    exact ⟨iff_of_true rfl hall, fun h => by cases h⟩
  · simp only [Nat.zero_add] at hsome hfails hbefore
    rw [hsome, Option.getD_some]
    constructor
    · exact iff_of_false Bool.false_ne_true fun hall => hfails.not_passes (hall i e he)
    · exact fun _ => ⟨i, e, rfl, he, hfails, hfails.not_passes, hbefore⟩

end ArchGuard.Audit
