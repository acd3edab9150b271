import ArchGuard.Latches
import ArchGuard.Primitives

/-! The detector of credential stuffing: distinct identities of an origin within a sliding window. -/
namespace ArchGuard.Stuffing
open Latches

def stuffingWindow : Duration := 5*60*10^9

def stuffingDistinctThreshold : ℕ := 10

/-- A map of identities to the instant at which each was last seen. -/
structure Identities where
  entries : List (Uuid × Time)
  nodup : (entries.map Prod.fst).Nodup

def Identities.empty : Identities := ⟨[], List.nodup_nil⟩

/-- Without the identities last seen before the cutoff. -/
def Identities.prune (ids : Identities) (cutoff : Time) : Identities where
  entries := ids.entries.filter fun e => cutoff ≤ e.2
  nodup := ids.nodup.sublist (List.filter_sublist.map Prod.fst)

theorem nodup_set (ids : Identities) (id : Uuid) (now : Time) :
    (((id, now) :: ids.entries.filter fun e => e.1 ≠ id).map Prod.fst).Nodup := by
  rw [List.map_cons, List.nodup_cons]
  refine ⟨?_, ids.nodup.sublist (List.filter_sublist.map Prod.fst)⟩
  intro hmem
  obtain ⟨e, he, heq⟩ := List.mem_map.mp hmem
  exact of_decide_eq_true (List.mem_filter.mp he).2 heq

def Identities.set (ids : Identities) (id : Uuid) (now : Time) : Identities :=
  ⟨(id, now) :: ids.entries.filter fun e => e.1 ≠ id, nodup_set ids id now⟩

structure StuffingDetector where
  seen : String → Identities
  alerted : String → Bool

def newStuffingDetector : StuffingDetector := ⟨fun _ => .empty, fun _ => false⟩

/-- A failed login, as the detector is told of it. -/
structure Observation where
  originKey : String
  identityID : Uuid
  now : Time
  deriving DecidableEq, Repr

structure Outcome where
  alert : Bool
  distinct : ℕ
  deriving DecidableEq, Repr

def StuffingDetector.observe (d : StuffingDetector) (o : Observation) :
    Outcome × StuffingDetector :=
  let pruned := (d.seen o.originKey).prune (o.now-stuffingWindow)
  -- a window that has drained lets the origin alert again
  let alerted := if pruned.entries = [] then false else d.alerted o.originKey
  let ids := pruned.set o.identityID o.now
  let distinct := ids.entries.length
  let alert := stuffingDistinctThreshold ≤ distinct ∧ ¬ alerted
  (⟨alert, distinct⟩,
    { seen := Function.update d.seen o.originKey ids
      alerted := Function.update d.alerted o.originKey (alert || alerted) })

def after (os : List Observation) : StuffingDetector :=
  os.foldl (fun d o => (d.observe o).2) newStuffingDetector

/-- What the observation `o` is answered after those of `os`. -/
def outcome (os : List Observation) (o : Observation) : Outcome := ((after os).observe o).1

-- What the detector is for, read off the observations alone.

def identitiesSince (os : List Observation) (originKey : String) (cutoff : Time) : List Uuid :=
  ((os.filter fun o => o.originKey = originKey ∧ cutoff ≤ o.now).map
    Observation.identityID).dedup

/-- How many identities the window that ends with `o` has. -/
def distinctInWindow (os : List Observation) (o : Observation) : ℕ :=
  (identitiesSince (os ++ [o]) o.originKey (o.now-stuffingWindow)).length

def Reaches (os : List Observation) (o : Observation) : Prop :=
  stuffingDistinctThreshold ≤ distinctInWindow os o

def Silent (os : List Observation) (o : Observation) : Prop :=
  ∀ g ∈ os, g.originKey = o.originKey → g.now < o.now-stuffingWindow

def Sorted (os : List Observation) : Prop := os.Pairwise fun a b => a.now ≤ b.now

section State

variable {os : List Observation} {o : Observation} {key : String}

theorem after_snoc : after (os ++ [o]) = ((after os).observe o).2 := by
  rw [after, List.foldl_append]
  rfl

theorem Sorted.of_prefix {p : List Observation} (h : Sorted os) (hp : p <+: os) : Sorted p :=
  List.Pairwise.sublist hp.sublist h

theorem Sorted.le_last (h : Sorted (os ++ [o])) {g : Observation} (hg : g ∈ os) : g.now ≤ o.now :=
  (List.pairwise_append.mp h).2.2 g hg o (List.mem_singleton_self o)

/-- What the detector keeps of an origin: from any cutoff on that its last observation allows, the
identities since that cutoff. -/
def Keeps (ids : Identities) (os : List Observation) (key : String) : Prop :=
  ∀ cutoff, (∀ g ∈ os, g.originKey = key → g.now-stuffingWindow ≤ cutoff) → ∀ id,
    (∃ ts, (id, ts) ∈ ids.entries ∧ cutoff ≤ ts) ↔
      ∃ g ∈ os, g.originKey = key ∧ g.identityID = id ∧ cutoff ≤ g.now

theorem Keeps.snoc_ne {ids : Identities} (h : Keeps ids os key) (hne : o.originKey ≠ key) :
    Keeps ids (os ++ [o]) key := by
  intro cutoff hcutoff id
  rw [h cutoff (fun g hg => hcutoff g (List.mem_append_left _ hg)) id]
  constructor
  · rintro ⟨g, hg, hrest⟩
    exact ⟨g, List.mem_append_left _ hg, hrest⟩
  · rintro ⟨g, hg, hkey, hrest⟩
    rcases List.mem_append.mp hg with hg | hg
    · exact ⟨g, hg, hkey, hrest⟩
    · rw [List.mem_singleton.mp hg] at hkey
      exact absurd hkey hne

theorem Keeps.snoc_self {ids : Identities} (h : Keeps ids os o.originKey)
    (hsorted : Sorted (os ++ [o])) :
    Keeps ((ids.prune (o.now-stuffingWindow)).set o.identityID o.now) (os ++ [o]) o.originKey := by
  intro cutoff hcutoff id
  have hlast : o.now-stuffingWindow ≤ cutoff :=
    hcutoff o (List.mem_append_right _ (List.mem_singleton_self o)) rfl
  have hold := h cutoff (fun g hg => hcutoff g (List.mem_append_left _ hg)) id
  by_cases hid : id = o.identityID
  · -- the identity that is observed is kept with the latest instant of all
    constructor
    · rintro ⟨ts, hmem, hts⟩
      refine ⟨o, List.mem_append_right _ (List.mem_singleton_self o), rfl, hid.symm, ?_⟩
      rcases List.mem_cons.mp hmem with heq | hmem
      · rw [← (Prod.mk.inj heq).2]
        exact hts
      · exact absurd hid (of_decide_eq_true (List.mem_filter.mp hmem).2)
    · rintro ⟨g, hg, -, -, hle⟩
      refine ⟨o.now, hid ▸ List.mem_cons_self, ?_⟩
      rcases List.mem_append.mp hg with hg | hg
      · exact hle.trans (hsorted.le_last hg)
      · rwa [List.mem_singleton.mp hg] at hle
  · have hkept (ts : Time) (hts : cutoff ≤ ts) :
        (id, ts) ∈ ((ids.prune (o.now-stuffingWindow)).set o.identityID o.now).entries ↔
          (id, ts) ∈ ids.entries := by
      show (id, ts) ∈ (o.identityID, o.now) :: _ ↔ _
      rw [List.mem_cons, List.mem_filter]
      show _ ∨ ((id, ts) ∈ ids.entries.filter _ ∧ _) ↔ _
      rw [List.mem_filter]
      constructor
      · rintro (heq | ⟨⟨hmem, -⟩, -⟩)
        · exact absurd (Prod.mk.inj heq).1 hid
        · exact hmem
      · intro hmem
        exact Or.inr ⟨⟨hmem, decide_eq_true (hlast.trans hts)⟩, decide_eq_true hid⟩
    constructor
    · rintro ⟨ts, hmem, hts⟩
      obtain ⟨g, hg, hrest⟩ := hold.mp ⟨ts, (hkept ts hts).mp hmem, hts⟩
      exact ⟨g, List.mem_append_left _ hg, hrest⟩
    · rintro ⟨g, hg, hkey, hgid, hle⟩
      rcases List.mem_append.mp hg with hg | hg
      · obtain ⟨ts, hmem, hts⟩ := hold.mpr ⟨g, hg, hkey, hgid, hle⟩
        exact ⟨ts, (hkept ts hts).mpr hmem, hts⟩
      · rw [List.mem_singleton.mp hg] at hgid
        exact absurd hgid.symm hid

theorem seen_observe_self (d : StuffingDetector) (o : Observation) :
    (d.observe o).2.seen o.originKey =
      ((d.seen o.originKey).prune (o.now-stuffingWindow)).set o.identityID o.now :=
  Function.update_self _ _ _

theorem seen_observe_ne (d : StuffingDetector) {o : Observation} (h : key ≠ o.originKey) :
    (d.observe o).2.seen key = d.seen key := Function.update_of_ne h _ _

theorem keeps_after (h : Sorted os) : Keeps ((after os).seen key) os key := by
  induction os using List.reverseRecOn with
  | nil =>
    intro cutoff _ id
    constructor
    · rintro ⟨ts, hmem, -⟩
      cases hmem
    · rintro ⟨g, hg, -⟩
      cases hg
  | append_singleton os o ih =>
    have hkeeps := ih (h.of_prefix (List.prefix_append os [o]))
    rw [after_snoc]
    by_cases hkey : key = o.originKey
    · subst hkey
      rw [seen_observe_self]
      exact hkeeps.snoc_self h
    · rw [seen_observe_ne _ hkey]
      exact hkeeps.snoc_ne (Ne.symm hkey)

/-- The number that is returned is the number of identities of the window. -/
theorem distinct_eq (h : Sorted (os ++ [o])) :
    (outcome os o).distinct = distinctInWindow os o := by
  have hkeeps : Keeps ((after (os ++ [o])).seen o.originKey) (os ++ [o]) o.originKey := keeps_after h
  rw [after_snoc, seen_observe_self] at hkeeps
  have hentries := hkeeps (o.now-stuffingWindow) (by
    intro g hg _
    rcases List.mem_append.mp hg with hg | hg
    · exact Int.sub_le_sub_right (h.le_last hg) _
    · rw [List.mem_singleton.mp hg])
  let ids := (((after os).seen o.originKey).prune (o.now-stuffingWindow)).set o.identityID o.now
  -- everything that is left after pruning lies in the window
  have hrecent : ∀ e ∈ ids.entries, o.now-stuffingWindow ≤ e.2 := by
    intro e he
    rcases List.mem_cons.mp he with rfl | he
    · exact Int.sub_le_self _ (by decide)
    · exact of_decide_eq_true (List.mem_filter.mp (List.mem_filter.mp he).1).2
  have hperm : (ids.entries.map Prod.fst).Perm
      (identitiesSince (os ++ [o]) o.originKey (o.now-stuffingWindow)) := by
    rw [identitiesSince, List.perm_ext_iff_of_nodup ids.nodup (List.nodup_dedup _)]
    intro id
    rw [List.mem_dedup]
    constructor
    · intro hmem
      obtain ⟨e, he, rfl⟩ := List.mem_map.mp hmem
      obtain ⟨g, hg, hkey, hid, hle⟩ := (hentries e.1).mp ⟨e.2, he, hrecent e he⟩
      exact List.mem_map.mpr ⟨g, List.mem_filter.mpr ⟨hg, decide_eq_true ⟨hkey, hle⟩⟩, hid⟩
    · intro hmem
      obtain ⟨g, hg, hid⟩ := List.mem_map.mp hmem
      obtain ⟨hg, hmatch⟩ := List.mem_filter.mp hg
      obtain ⟨hkey, hle⟩ := of_decide_eq_true hmatch
      obtain ⟨ts, hts, -⟩ := (hentries id).mpr ⟨g, hg, hkey, hid, hle⟩
      exact List.mem_map.mpr ⟨(id, ts), hts, rfl⟩
  have hlength := hperm.length_eq
  rw [List.length_map] at hlength
  exact hlength

theorem pruned_eq_nil_iff (h : Sorted (os ++ [o])) :
    (((after os).seen o.originKey).prune (o.now-stuffingWindow)).entries = [] ↔ Silent os o := by
  have hkeeps : Keeps ((after os).seen o.originKey) os o.originKey :=
    keeps_after (h.of_prefix (List.prefix_append os [o]))
  have hentries := hkeeps (o.now-stuffingWindow)
    fun g hg _ => Int.sub_le_sub_right (h.le_last hg) _
  constructor
  · intro hnil g hg hkey
    by_contra hrecent
    obtain ⟨ts, hmem, hts⟩ := (hentries g.identityID).mpr ⟨g, hg, hkey, rfl, not_lt.mp hrecent⟩
    have hkept : (g.identityID, ts) ∈
        (((after os).seen o.originKey).prune (o.now-stuffingWindow)).entries :=
      List.mem_filter.mpr ⟨hmem, decide_eq_true hts⟩
    rw [hnil] at hkept
    cases hkept
  · intro hsilent
    rw [List.eq_nil_iff_forall_not_mem]
    intro e he
    obtain ⟨hmem, hts⟩ := List.mem_filter.mp he
    obtain ⟨g, hg, hkey, -, hle⟩ := (hentries e.1).mp ⟨e.2, hmem, of_decide_eq_true hts⟩
    exact (hsilent g hg hkey).not_ge hle

end State

section Alerts

variable {os : List Observation} {o : Observation} {key : String}

def Of (key : String) (o : Observation) : Prop := o.originKey = key

theorem alert_iff (h : Sorted (os ++ [o])) :
    (outcome os o).alert = true ↔
      Reaches os o ∧ (Silent os o ∨ (after os).alerted o.originKey = false) := by
  have hdistinct : (outcome os o).distinct = distinctInWindow os o := distinct_eq h
  show decide (stuffingDistinctThreshold ≤ (outcome os o).distinct ∧
    ¬ ite _ _ _ = true) = true ↔ _
  rw [decide_eq_true_eq, hdistinct, Reaches, ← pruned_eq_nil_iff h]
  split_ifs with hnil
  · simp [hnil]
  · simp [hnil]

/-- The mark on an origin, as the sequence of observations determines it. -/
theorem alerted_iff (h : Sorted os) :
    (after os).alerted key = true ↔ Latched (Of key) Silent Reaches os := by
  induction os using List.reverseRecOn with
  | nil => exact iff_of_false Bool.false_ne_true not_latched_nil
  | append_singleton os o ih =>
    have hbefore := ih (h.of_prefix (List.prefix_append os [o]))
    rw [latched_snoc, ← hbefore, after_snoc]
    by_cases hkey : o.originKey = key
    · subst hkey
      have halert := alert_iff h
      have hsilent := pruned_eq_nil_iff h
      have hmark : ((after os).observe o).2.alerted o.originKey =
          ((outcome os o).alert || if (((after os).seen o.originKey).prune
            (o.now-stuffingWindow)).entries = [] then false else (after os).alerted o.originKey) :=
        Function.update_self _ _ _
      rw [hmark, Bool.or_eq_true, halert]
      by_cases hs : Silent os o
      · simp [hs, hsilent.mpr hs, Of]
      · have hne := mt hsilent.mp hs
        cases hup : (after os).alerted o.originKey <;> simp [hs, hne, Of]
    · have hmark : ((after os).observe o).2.alerted key = (after os).alerted key :=
        Function.update_of_ne (Ne.symm hkey) _ _
      rw [hmark]
      simp [Of, hkey]

theorem alert_iff_fires (h : Sorted (os ++ [o])) :
    (outcome os o).alert = true ↔ Fires (Of o.originKey) Silent Reaches os o := by
  rw [alert_iff h, Fires, ← alerted_iff (h.of_prefix (List.prefix_append os [o])),
    Bool.not_eq_true]

end Alerts

/-- Every count is the number of distinct identities of its window, and whatever reaches the
threshold alerts, unless its origin raised an alert within the window before. -/
structure Detects (os : List Observation) : Prop where
  counts : ∀ p o, p ++ [o] <+: os → (outcome p o).distinct = distinctInWindow p o
  alerts : ∀ p o, p ++ [o] <+: os → Reaches p o →
    (∀ q a, q ++ [a] <+: p → a.originKey = o.originKey → (outcome q a).alert = true →
      a.now < o.now-stuffingWindow) → (outcome p o).alert = true

/-- No origin keeps at it: while it is never silent for longer than the window, it reaches the
threshold within one window only. -/
def NoLongAttack (os : List Observation) : Prop :=
  ∀ key, Brief (Of key) Silent Reaches Observation.now stuffingWindow os

/-- The detector misses an alert exactly in the attacks that go on for longer than the window: the
mark is not removed before the origin has been silent for a whole window. -/
theorem detects_iff_noLongAttack (os : List Observation) (hsorted : Sorted os) :
    Detects os ↔ NoLongAttack os := by
  have halert {p : List Observation} {o : Observation} (hp : p ++ [o] <+: os) :=
    alert_iff_fires (hsorted.of_prefix hp)
  have hprompt (key : String) : Prompt (Of key) Silent Reaches Observation.now stuffingWindow os ↔
      Brief (Of key) Silent Reaches Observation.now stuffingWindow os := prompt_iff_brief hsorted
  constructor
  · intro hdetects key
    apply (hprompt key).mp
    rintro p o hp rfl hreach hquiet
    apply (halert hp).mp
    apply hdetects.alerts p o hp hreach
    intro q a hq hkey hfired
    apply hquiet q a hq hkey
    have hpos : q ++ [a] <+: os := hq.trans ((List.prefix_append p [o]).trans hp)
    exact hkey ▸ (halert hpos).mp hfired
  · intro hbrief
    refine ⟨fun p o hp => distinct_eq (hsorted.of_prefix hp), ?_⟩
    intro p o hp hreach hquiet
    apply (halert hp).mpr
    apply (hprompt o.originKey).mpr (hbrief o.originKey) p o hp rfl hreach
    intro q a hq hkey hfires
    have hpos : q ++ [a] <+: os := hq.trans ((List.prefix_append p [o]).trans hp)
    exact hquiet q a hq hkey ((halert hpos).mpr (hkey.symm ▸ hfires))

section Samples

def minutes (n : ℤ) : Time := n*(60*10^9)

/-- Ten identities of one origin at one instant. -/
def burst : List Observation :=
  (List.range 10).map fun id => ⟨"origin-A", BitVec.ofNat 128 id, 0⟩

theorem burst_detected : Detects burst := by
  have hinstant : ∀ o ∈ burst, o.now = 0 := by decide
  refine (detects_iff_noLongAttack burst (by unfold Sorted; decide)).mpr ?_
  intro key p o hp q a hq _ _ _ _ _
  have ho := hinstant o (hp.subset (List.mem_append_right _ (List.mem_singleton_self o)))
  have ha := hinstant a (hp.subset (List.mem_append_left _
    (hq.subset (List.mem_append_right _ (List.mem_singleton_self a)))))
  rw [ho, ha]
  decide

/-- The burst, one more login after four minutes, and nine identities again after eight. -/
def slowAttack : List Observation :=
  burst ++ ⟨"origin-A", 0, minutes 4⟩ ::
    (List.range 8).map fun id => ⟨"origin-A", BitVec.ofNat 128 (id+1), minutes 8⟩

def lastLogin : Observation := ⟨"origin-A", 9, minutes 8⟩

/-- Ten identities within four minutes, and the only alert was eight minutes ago: the detector is
silent, as the window never drained. -/
theorem slowAttack_undetected :
    Sorted (slowAttack ++ [lastLogin]) ∧ ¬ Detects (slowAttack ++ [lastLogin]) := by
  refine ⟨by unfold Sorted; decide +kernel, ?_⟩
  intro hdetects
  have hreach : Reaches slowAttack lastLogin := by
    show stuffingDistinctThreshold ≤ distinctInWindow slowAttack lastLogin
    decide +kernel
  have hsilent : (outcome slowAttack lastLogin).alert = false := by decide +kernel
  have hearly : ∀ i < 19, (outcome (slowAttack.take i) (slowAttack.getD i lastLogin)).alert = true →
      (slowAttack.getD i lastLogin).now < lastLogin.now-stuffingWindow := by decide +kernel
  have hfired := hdetects.alerts slowAttack lastLogin (List.prefix_refl _) hreach (by
    intro q a hq _ halert
    have hlen : q.length < 19 := by
      have hle := hq.length_le
      rw [List.length_append, List.length_singleton, show slowAttack.length = 19 from rfl] at hle
      exact hle
    have htake : slowAttack.take q.length = q := by
      obtain ⟨rest, hrest⟩ := hq
      rw [← hrest, List.append_assoc, List.take_left]
    have hget : slowAttack.getD q.length lastLogin = a := by
      obtain ⟨rest, hrest⟩ := hq
      rw [← hrest, List.append_assoc]
      simp
    have h := hearly q.length hlen
    rw [htake, hget] at h
    exact h halert)
  rw [hsilent] at hfired
  cases hfired

end Samples

end ArchGuard.Stuffing
