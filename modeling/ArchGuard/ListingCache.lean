import ArchGuard.AuthzCheck
import ArchGuard.SharedCalls

/-! The short cache of listings before a decision point, when its calls interleave. -/
namespace ArchGuard.PdpCache
open Authz SharedCalls TransitionRun

/-- What the cache asks of the decision point behind it, over that one's own state. -/
structure PolicyDecisionPoint (σ E : Type) where
  listObjects : σ → ListObjectsRequest → Except E (List String)
  write : σ → List TupleUpdate → Except E σ

/-- A listing, with how many `Write`s had taken effect when it was computed, and when that was. -/
structure Listing where
  objects : List String
  writes : ℕ
  computedAt : Time
  deriving DecidableEq, Repr

structure CacheEntry where
  listing : Listing
  expiresAt : Time

/-- The cache, the decision point behind it, and the clock. -/
structure CachingPDP (σ : Type) where
  inner : σ
  writes : ℕ
  clock : Time
  entries : String → Option CacheEntry

def CachingPDP.new {σ : Type} (inner : σ) (clock : Time) : CachingPDP σ := ⟨inner, 0, clock, fun _ => none⟩

/-- Time passes before a statement, and a call of the decision point may fail for reasons of its
own; a `Write` that fails so may have taken effect. -/
structure World (E : Type) where
  elapsed : ℕ
  fails : Option E
  took : Bool

/-- Where a call stands: the statement it is to execute next, or what it has returned. An effect is
the number of a `Write` among those that took effect. -/
inductive CallPc (E : Type)
  | listObjects (req : ListObjectsRequest)
  | lookup (req : ListObjectsRequest) (now : Time)
  | inner (req : ListObjectsRequest) (now : Time)
  | fill (req : ListObjectsRequest) (now : Time) (listing : Listing)
  | listed (now : Time) (listing : Listing)
  | listFailed (err : E)
  | write (updates : List TupleUpdate)
  | flush (effect : ℕ)
  | wrote (effect : ℕ)
  | writeFailed (effect : Option ℕ) (err : E)
  deriving DecidableEq

inductive CallRequest
  | listObjects (req : ListObjectsRequest)
  | write (updates : List TupleUpdate)

section Calls

variable {σ E : Type} (pdp : PolicyDecisionPoint σ E) (ttl : Duration)

def cacheKey (req : ListObjectsRequest) : String :=
  req.user ++ "\x00" ++ req.relation ++ "\x00" ++ req.type

def CachingPDP.pass (s : CachingPDP σ) (w : World E) : CachingPDP σ := { s with clock := s.clock + w.elapsed }

/-- `ListObjects` of the decision point. -/
def ask (w : World E) (req : ListObjectsRequest) (s : CachingPDP σ) : Except E Listing :=
  match w.fails with
  | some err => .error err
  | none => (pdp.listObjects s.inner req).map fun objects => ⟨objects, s.writes, s.clock⟩

/-- `Write` of the decision point. -/
def tell (w : World E) (updates : List TupleUpdate) (s : CachingPDP σ) : CallPc E × CachingPDP σ :=
  match pdp.write s.inner updates with
  | .error err => (.writeFailed none err, s)
  | .ok inner =>
    match w.fails with
    | none => (.flush (s.writes+1), { s with inner := inner, writes := s.writes+1 })
    | some err =>
      if w.took then
        (.writeFailed (some (s.writes+1)) err, { s with inner := inner, writes := s.writes+1 })
      else (.writeFailed none err, s)

def answered (listed : Listing → CallPc E) : Except E Listing → CallPc E
  | .ok listing => listed listing
  | .error err => .listFailed err

def statement (w : World E) (s : CachingPDP σ) : CallPc E → Option (CallPc E × CachingPDP σ)
  | .listObjects req =>
    if ttl ≤ 0 then some (answered (.listed s.clock) (ask pdp w req s), s)
    else some (.lookup req s.clock, s)
  | .lookup req now =>
    match s.entries (cacheKey req) with
    | some e => if now < e.expiresAt then some (.listed now e.listing, s) else some (.inner req now, s)
    | none => some (.inner req now, s)
  | .inner req now => some (answered (.fill req now) (ask pdp w req s), s)
  | .fill req now listing => some (.listed now listing,
      { s with entries := Function.update s.entries (cacheKey req) (some ⟨listing, now + ttl⟩) })
  | .write updates => some (tell pdp w updates s)
  | .flush effect => some (.wrote effect, { s with entries := fun _ => none })
  | _ => none

def cacheProgram : Program (CachingPDP σ) CallRequest (CallPc E) (World E) where
  entry
    | .listObjects req => .listObjects req
    | .write updates => .write updates
  next l w s := statement pdp ttl w (s.pass w) l

end Calls

abbrev CacheSite (σ E : Type) := Site (CachingPDP σ) (CallPc E)

abbrev CacheEvent (E : Type) := Event CallRequest (World E)

section Freshness

variable {σ E : Type}

/-- The call is a `Write` that has returned, with an error or without, and took effect. -/
def Returned (s : CacheSite σ E) (i effect : ℕ) : Prop :=
  s.call i = some (.wrote effect) ∨ ∃ err, s.call i = some (.writeFailed (some effect) err)

/-- No listing is put into the cache that is older than a `Write` that has returned, and a `Write`
that fails has not taken effect. -/
structure OnTime (s : CacheSite σ E) (e : CacheEvent E) : Prop where
  fill : ∀ i w req now listing, e = .step i w → s.call i = some (.fill req now listing) →
    ∀ j effect, Returned s j effect → effect ≤ listing.writes
  write : ∀ i w updates, e = .step i w → s.call i = some (.write updates) → w.fails ≠ none →
    w.took = false

def ExpiresInTime (ttl : Duration) (s : CachingPDP σ) : Prop :=
  ∀ key e, s.entries key = some e → e.expiresAt ≤ e.listing.computedAt + ttl

def NewerThan (effect : ℕ) (s : CachingPDP σ) : Prop :=
  ∀ key e, s.entries key = some e → effect ≤ e.listing.writes

/-- The clock is past a call's reading of it, and its listing was computed no longer before that than
the lifetime. -/
def Aged (ttl : Duration) (s : CachingPDP σ) : CallPc E → Prop
  | .lookup _ now => now ≤ s.clock ∧ 0 < ttl
  | .inner _ now => now ≤ s.clock ∧ 0 < ttl
  | .fill _ now listing => now ≤ s.clock ∧ now ≤ listing.computedAt ∧ 0 < ttl
  | .listed now listing => now ≤ s.clock ∧ now ≤ listing.computedAt + max ttl 0
  | _ => True

/-- The effect of a `Write` that has returned is behind the cache, and one that failed has none. -/
def Settled (s : CachingPDP σ) : CallPc E → Prop
  | .flush effect => effect ≤ s.writes
  | .wrote effect => effect ≤ s.writes ∧ NewerThan effect s
  | .writeFailed effect _ => effect = none
  | _ => True

/-- A call that started at the instant `since` has read the clock no earlier. -/
def ReadSince (since : Time) : CallPc E → Prop
  | .lookup _ now => since ≤ now
  | .inner _ now => since ≤ now
  | .fill _ now _ => since ≤ now
  | .listed now _ => since ≤ now
  | _ => True

/-- Its listing has the effects that `seen` names. -/
def Sees (seen : ℕ → Prop) : CallPc E → Prop
  | .fill _ _ listing => ∀ effect, seen effect → effect ≤ listing.writes
  | .listed _ listing => ∀ effect, seen effect → effect ≤ listing.writes
  | _ => True

inductive Does (ttl : Duration) (w : World E) (s : CachingPDP σ) :
    CallPc E → CallPc E → CachingPDP σ → Prop
  | reads {req : ListObjectsRequest} : 0 < ttl → Does ttl w s (.listObjects req) (.lookup req s.clock) s
  | uncached {req : ListObjectsRequest} {listing : Listing} : listing.writes = s.writes →
    listing.computedAt = s.clock → Does ttl w s (.listObjects req) (.listed s.clock listing) s
  | refused {req : ListObjectsRequest} {err : E} : Does ttl w s (.listObjects req) (.listFailed err) s
  | hit {req : ListObjectsRequest} {now : Time} {e : CacheEntry} : s.entries (cacheKey req) = some e →
    now < e.expiresAt → Does ttl w s (.lookup req now) (.listed now e.listing) s
  | miss {req : ListObjectsRequest} {now : Time} : Does ttl w s (.lookup req now) (.inner req now) s
  | computed {req : ListObjectsRequest} {now : Time} {listing : Listing} : listing.writes = s.writes →
    listing.computedAt = s.clock → Does ttl w s (.inner req now) (.fill req now listing) s
  | failed {req : ListObjectsRequest} {now : Time} {err : E} :
    Does ttl w s (.inner req now) (.listFailed err) s
  | fills {req : ListObjectsRequest} {now : Time} {listing : Listing} :
    Does ttl w s (.fill req now listing) (.listed now listing)
      { s with entries := Function.update s.entries (cacheKey req) (some ⟨listing, now + ttl⟩) }
  | takes {updates : List TupleUpdate} {inner : σ} :
    Does ttl w s (.write updates) (.flush (s.writes+1)) { s with inner := inner, writes := s.writes+1 }
  | takesUntold {updates : List TupleUpdate} {inner : σ} {err : E} : w.fails ≠ none → w.took = true →
    Does ttl w s (.write updates) (.writeFailed (some (s.writes+1)) err)
      { s with inner := inner, writes := s.writes+1 }
  | fails {updates : List TupleUpdate} {err : E} :
    Does ttl w s (.write updates) (.writeFailed none err) s
  | flushes {effect : ℕ} :
    Does ttl w s (.flush effect) (.wrote effect) { s with entries := fun _ => none }

section Steps

variable {pdp : PolicyDecisionPoint σ E} {ttl : Duration} {w : World E} {s t : CachingPDP σ}
  {l l' m : CallPc E}

theorem ask_facts {req : ListObjectsRequest} {listing : Listing} (h : ask pdp w req s = .ok listing) :
    listing.writes = s.writes ∧ listing.computedAt = s.clock := by
  rw [ask] at h
  split at h
  · cases h
  · cases hlist : pdp.listObjects s.inner req with
    | error err =>
      rw [hlist] at h
      cases h
    | ok objects =>
      rw [hlist] at h
      cases h
      exact ⟨rfl, rfl⟩

theorem does_of_tell (updates : List TupleUpdate) :
    Does ttl w s (.write updates) (tell pdp w updates s).1 (tell pdp w updates s).2 := by
  rw [tell]
  cases pdp.write s.inner updates with
  | error err => exact .fails
  | ok inner =>
    cases hfails : w.fails with
    | none => exact .takes
    | some err =>
      by_cases htook : w.took = true
      · simp only [if_pos htook]
        exact .takesUntold (hfails ▸ Option.some_ne_none err) htook
      · simp only [if_neg htook]
        exact .fails

theorem does_of_statement (h : statement pdp ttl w s l = some (l', t)) : Does ttl w s l l' t := by
  cases l with
  | listObjects req =>
    rw [statement] at h
    by_cases httl : ttl ≤ 0
    · rw [if_pos httl] at h
      cases h
      cases hask : ask pdp w req s with
      | error err => exact .refused
      | ok listing => exact .uncached (ask_facts hask).1 (ask_facts hask).2
    · rw [if_neg httl] at h
      cases h
      exact .reads (not_le.mp httl)
  | lookup req now =>
    rw [statement] at h
    cases hentry : s.entries (cacheKey req) with
    | none =>
      rw [hentry] at h
      cases h
      exact .miss
    | some e =>
      simp only [hentry] at h
      by_cases hfresh : now < e.expiresAt
      · rw [if_pos hfresh] at h
        cases h
        exact .hit hentry hfresh
      · rw [if_neg hfresh] at h
        cases h
        exact .miss
  | inner req now =>
    cases h
    cases hask : ask pdp w req s with
    | error err => exact .failed
    | ok listing => exact .computed (ask_facts hask).1 (ask_facts hask).2
  | fill req now listing =>
    cases h
    exact .fills
  | write updates =>
    have htold := @does_of_tell σ E pdp ttl w s updates
    rwa [Option.some.inj h] at htold
  | flush effect =>
    cases h
    exact .flushes
  | _ => cases h

/-- What every statement leaves: the clock, the effects so far, and of the cache all that it did not
put there itself. -/
structure Moved (ttl : Duration) (l : CallPc E) (s t : CachingPDP σ) : Prop where
  clock : t.clock = s.clock
  writes : s.writes ≤ t.writes
  entries : ∀ key e, t.entries key = some e → s.entries key = some e ∨
    ∃ req now listing, l = .fill req now listing ∧ e = ⟨listing, now + ttl⟩

theorem Moved.refl : Moved ttl l s s := ⟨rfl, le_rfl, fun _ _ he => Or.inl he⟩

theorem Does.moved (h : Does ttl w s l l' t) : Moved ttl l s t := by
  cases h with
  | @fills req now listing =>
    refine ⟨rfl, le_rfl, ?_⟩
    intro key e he
    have he : Function.update s.entries (cacheKey req) (some ⟨listing, now + ttl⟩) key = some e := he
    by_cases hkey : key = cacheKey req
    · subst hkey
      rw [Function.update_self] at he
      exact Or.inr ⟨req, now, listing, rfl, (Option.some.inj he).symm⟩
    · rw [Function.update_of_ne hkey] at he
      exact Or.inl he
  | takes => exact ⟨rfl, Nat.le_succ _, fun _ _ he => Or.inl he⟩
  | takesUntold _ _ => exact ⟨rfl, Nat.le_succ _, fun _ _ he => Or.inl he⟩
  | flushes => exact ⟨rfl, le_rfl, fun _ _ he => nomatch he⟩
  | _ => exact Moved.refl

theorem Aged.mono (h : Aged ttl s m) (hclock : s.clock ≤ t.clock) : Aged ttl t m := by
  cases m with
  | lookup req now => exact ⟨h.1.trans hclock, h.2⟩
  | inner req now => exact ⟨h.1.trans hclock, h.2⟩
  | fill req now listing => exact ⟨h.1.trans hclock, h.2⟩
  | listed now listing => exact ⟨h.1.trans hclock, h.2⟩
  | _ => trivial

theorem Settled.mono (h : Settled s m) (hwrites : s.writes ≤ t.writes)
    (hnewer : ∀ effect, m = .wrote effect → NewerThan effect s → NewerThan effect t) :
    Settled t m := by
  cases m with
  | flush effect => exact le_trans h hwrites
  | wrote effect => exact ⟨h.1.trans hwrites, hnewer effect rfl h.2⟩
  | _ => exact h

theorem Does.aged (h : Does ttl w s l l' t) (hs : ExpiresInTime ttl s) (hl : Aged ttl s l) :
    Aged ttl t l' := by
  cases h with
  | reads httl => exact ⟨le_rfl, httl⟩
  | uncached _ hnow =>
    refine ⟨le_rfl, ?_⟩
    rw [hnow]
    exact le_add_of_nonneg_right (le_max_right ttl 0)
  | hit hentry hfresh =>
    refine ⟨hl.1, ?_⟩
    rw [max_eq_left hl.2.le]
    exact hfresh.le.trans (hs _ _ hentry)
  | miss => exact hl
  | computed _ hnow =>
    refine ⟨hl.1, ?_, hl.2⟩
    rw [hnow]
    exact hl.1
  | fills => exact ⟨hl.1, hl.2.1.trans (le_add_of_nonneg_right (le_max_right ttl 0))⟩
  | _ => trivial

theorem Does.settled (h : Does ttl w s l l' t) (hl : Settled s l)
    (hwrite : ∀ updates, l = .write updates → w.fails ≠ none → w.took = false) : Settled t l' := by
  cases h with
  | takes => exact le_rfl
  | takesUntold hfails htook => exact absurd (htook.symm.trans (hwrite _ rfl hfails)) (by decide)
  | fails => rfl
  | flushes => exact ⟨hl, fun _ _ he => nomatch he⟩
  | _ => trivial

theorem Does.readSince {since : Time} (h : Does ttl w s l l' t) (hclock : since ≤ s.clock)
    (hl : ReadSince since l) : ReadSince since l' := by
  cases h with
  | reads _ => exact hclock
  | uncached _ _ => exact hclock
  | hit _ _ => exact hl
  | miss => exact hl
  | computed _ _ => exact hl
  | fills => exact hl
  | _ => trivial

theorem Does.sees {seen : ℕ → Prop} (h : Does ttl w s l l' t)
    (hseen : ∀ effect, seen effect → effect ≤ s.writes ∧ NewerThan effect s) (hl : Sees seen l) :
    Sees seen l' := by
  cases h with
  | uncached hwrites _ => exact fun effect heffect => hwrites ▸ (hseen effect heffect).1
  | hit hentry _ => exact fun effect heffect => (hseen effect heffect).2 _ _ hentry
  | computed hwrites _ => exact fun effect heffect => hwrites ▸ (hseen effect heffect).1
  | fills => exact hl
  | _ => trivial

end Steps

section Runs

variable {pdp : PolicyDecisionPoint σ E} {ttl : Duration} {s s' : CacheSite σ E} {e : CacheEvent E}

theorem clock_pass (w : World E) (s : CachingPDP σ) : s.clock ≤ (s.pass w).clock :=
  le_add_of_nonneg_right (Int.natCast_nonneg w.elapsed)

theorem aged_exec (h : Holds (ExpiresInTime ttl) (Aged ttl) s)
    (he : exec (cacheProgram pdp ttl) s e = some s') : Holds (ExpiresInTime ttl) (Aged ttl) s' := by
  refine h.exec he ?_ ?_ ?_
  · intro i q hq
    cases q with
    | listObjects req => trivial
    | write updates => trivial
  · intro i w l l' t hi hl hnext
    have hdoes := does_of_statement hnext
    have haged := (h.call i l hl).mono (clock_pass w s.shared)
    have hexpires : ExpiresInTime ttl (s.shared.pass w) := h.shared
    refine ⟨?_, hdoes.aged hexpires haged⟩
    intro key entry hentry
    rcases hdoes.moved.entries key entry hentry with hold | ⟨req, now, listing, rfl, rfl⟩
    · exact h.shared key entry hold
    · exact add_le_add_left haged.2.1 ttl
  · intro i w l l' t hi hl hnext j m hj hm
    have hmoved := (does_of_statement hnext).moved
    exact (h.call j m hm).mono (hmoved.clock ▸ clock_pass w s.shared)

/-- On-time fills keep the cache newer than every `Write` that has returned. -/
theorem settled_exec (h : Holds (fun _ => True) Settled s) (hok : OnTime s e)
    (he : exec (cacheProgram pdp ttl) s e = some s') : Holds (fun _ => True) Settled s' := by
  refine h.exec he ?_ ?_ ?_
  · intro i q hq
    cases q with
    | listObjects req => trivial
    | write updates => trivial
  · intro i w l l' t hi hl hnext
    have hsettled : Settled (s.shared.pass w) l := (h.call i l hl).mono le_rfl fun _ _ hnewer => hnewer
    exact ⟨trivial, (does_of_statement hnext).settled hsettled
      fun updates hwrite => hok.write i w updates hi (hwrite ▸ hl)⟩
  · intro i w l l' t hi hl hnext j m hj hm
    have hmoved := (does_of_statement hnext).moved
    refine (h.call j m hm).mono hmoved.writes ?_
    intro effect hwrote hnewer key entry hentry
    rcases hmoved.entries key entry hentry with hold | ⟨req, now, listing, rfl, rfl⟩
    · exact hnewer key entry hold
    · exact hok.fill i w req now listing hi hl j effect (Or.inl (hwrote ▸ hm))

theorem exec_wrote {i effect : ℕ} (h : s.call i = some (.wrote effect))
    (he : exec (cacheProgram pdp ttl) s e = some s') : s'.call i = some (.wrote effect) := by
  cases e with
  | start k q =>
    obtain ⟨hfree, rfl⟩ := exec_start.mp he
    have hne : i ≠ k := by
      rintro rfl
      rw [hfree] at h
      cases h
    rw [goto_call, Function.update_of_ne hne, h]
  | step k w =>
    obtain ⟨l, l', t, hl, hnext, rfl⟩ := exec_step.mp he
    have hne : i ≠ k := by
      rintro rfl
      obtain rfl := Option.some.inj (h.symm.trans hl)
      cases hnext
    rw [goto_call, Function.update_of_ne hne, h]

theorem call_exec {j : ℕ} {K : CallPc E → Prop} (h : ∀ l, s.call j = some l → K l)
    (hentry : ∀ q, K ((cacheProgram pdp ttl).entry q))
    (hown : ∀ w l l' t, K l → Does ttl w (s.shared.pass w) l l' t → K l')
    (he : exec (cacheProgram pdp ttl) s e = some s') : ∀ l, s'.call j = some l → K l := by
  intro m hm
  cases e with
  | start k q =>
    obtain ⟨-, rfl⟩ := exec_start.mp he
    rcases call_goto hm with ⟨-, rfl⟩ | ⟨-, hm⟩
    · exact hentry q
    · exact h m hm
  | step k w =>
    obtain ⟨l, l', t, hl, hnext, rfl⟩ := exec_step.mp he
    rcases call_goto hm with ⟨rfl, rfl⟩ | ⟨-, hm⟩
    · exact hown w l l' t (h l hl) (does_of_statement hnext)
    · exact h m hm

/-- The state of a run after the instant `since`, for a call that started then. -/
structure StartedSince (ttl : Duration) (since : Time) (j : ℕ) (s : CacheSite σ E) : Prop where
  holds : Holds (ExpiresInTime ttl) (Aged ttl) s
  clock : since ≤ s.shared.clock
  call : ∀ l, s.call j = some l → ReadSince since l

theorem StartedSince.exec {since : Time} {j : ℕ} (h : StartedSince ttl since j s)
    (he : SharedCalls.exec (cacheProgram pdp ttl) s e = some s') : StartedSince ttl since j s' := by
  refine ⟨aged_exec h.holds he, ?_, ?_⟩
  · cases e with
    | start k q =>
      obtain ⟨-, rfl⟩ := exec_start.mp he
      exact h.clock
    | step k w =>
      obtain ⟨l, l', t, -, hnext, rfl⟩ := exec_step.mp he
      rw [goto_shared, (does_of_statement hnext).moved.clock]
      exact h.clock.trans (clock_pass w s.shared)
  · refine call_exec h.call ?_ ?_ he
    · intro q
      cases q with
      | listObjects req => trivial
      | write updates => trivial
    · exact fun w l l' t hl hdoes => hdoes.readSince (h.clock.trans (clock_pass w s.shared)) hl

/-- The same of a call that started when the effects that `seen` names had returned. -/
structure StartedAfter (seen : ℕ → Prop) (j : ℕ) (s : CacheSite σ E) : Prop where
  holds : Holds (fun _ => True) Settled s
  returned : ∀ effect, seen effect → ∃ i, s.call i = some (.wrote effect)
  call : ∀ l, s.call j = some l → Sees seen l

theorem StartedAfter.exec {seen : ℕ → Prop} {j : ℕ} (h : StartedAfter seen j s) (hok : OnTime s e)
    (he : SharedCalls.exec (cacheProgram pdp ttl) s e = some s') : StartedAfter seen j s' := by
  refine ⟨settled_exec h.holds hok he, ?_, ?_⟩
  · intro effect heffect
    obtain ⟨i, hi⟩ := h.returned effect heffect
    exact ⟨i, exec_wrote hi he⟩
  · refine call_exec h.call ?_ ?_ he
    · intro q
      cases q with
      | listObjects req => trivial
      | write updates => trivial
    · intro w l l' t hl hdoes
      refine hdoes.sees ?_ hl
      intro effect heffect
      obtain ⟨i, hi⟩ := h.returned effect heffect
      exact h.holds.call i _ hi

end Runs

/-- A listing that a call returns is at most as old as the lifetime at the call's reading of the
clock; and where every fill is on time, it is not from before any `Write` that had returned when the
call started. -/
theorem listings_fresh {pdp : PolicyDecisionPoint σ E} {ttl : Duration} {inner : σ} {clock : Time}
    {pre post : List (CacheEvent E)} {s s' : CacheSite σ E}
    (hpre : run (exec (cacheProgram pdp ttl)) (Site.idle (.new inner clock)) pre = some s)
    (hpost : run (exec (cacheProgram pdp ttl)) s post = some s')
    {j : ℕ} {now : Time} {listing : Listing} (hstart : s.call j = none)
    (hlisted : s'.call j = some (.listed now listing)) :
    (s.shared.clock ≤ now ∧ now ≤ s'.shared.clock ∧ now ≤ listing.computedAt + max ttl 0) ∧
      (Along (exec (cacheProgram pdp ttl)) OnTime (Site.idle (.new inner clock)) (pre ++ post) →
        ∀ i effect, Returned s i effect → effect ≤ listing.writes) := by
  constructor
  · have hidle : Holds (ExpiresInTime ttl) (Aged ttl) (Site.idle (.new inner clock) : CacheSite σ E) :=
      holds_idle fun _ _ he => nomatch he
    have hs := run_always (fun _ _ _ hI he => aged_exec hI he) hidle hpre
    have hsince : StartedSince ttl s.shared.clock j s :=
      ⟨hs, le_rfl, fun l hl => nomatch hstart.symm.trans hl⟩
    have hend := run_always (fun _ _ _ hI he => StartedSince.exec hI he) hsince hpost
    exact ⟨hend.call _ hlisted, hend.holds.call j _ hlisted⟩
  · intro hok
    obtain ⟨halong, halong'⟩ := along_append.mp hok
    have hidle : Holds (fun _ => True) Settled (Site.idle (.new inner clock) : CacheSite σ E) :=
      holds_idle trivial
    have hs := run_invariant (fun _ _ _ hI hon he => settled_exec hI hon he) hidle halong hpre
    have hafter : StartedAfter (fun effect => ∃ i, Returned s i effect) j s := by
      refine ⟨hs, ?_, fun l hl => nomatch hstart.symm.trans hl⟩
      rintro effect ⟨i, hi | ⟨err, hi⟩⟩
      · exact ⟨i, hi⟩
      · exact nomatch hs.call i _ hi
    have hend := run_invariant (fun _ _ _ hI hon he => hI.exec hon he) hafter (halong' s hpre) hpost
    exact fun i effect hi => hend.call _ hlisted effect ⟨i, hi⟩

/-- `OnTime` by evaluation, for the first `n` calls. -/
def onTimeTest (n : ℕ) (s : CacheSite σ E) : CacheEvent E → Bool
  | .start i _ => i < n
  | .step i w => i < n && match s.call i with
    | some (.fill _ _ listing) => (List.range n).all fun j => (s.call j).all fun
      | .wrote effect => decide (effect ≤ listing.writes)
      | .writeFailed effect _ => effect = none
      | _ => true
    | some (.write _) => w.fails.isNone || !w.took
    | _ => true

theorem onTime_of_test {n : ℕ} {s : CacheSite σ E} {e : CacheEvent E} (hs : Among n s)
    (h : onTimeTest n s e = true) : OnTime s e := by
  constructor
  · rintro i w req now listing rfl hl j effect hj
    simp only [onTimeTest, hl, Bool.and_eq_true] at h
    rcases hj with hj | ⟨err, hj⟩
    · have htest := hs.forall h.2 hj
      exact of_decide_eq_true htest
    · have htest := hs.forall h.2 hj
      exact absurd (of_decide_eq_true htest) (Option.some_ne_none effect)
  · rintro i w updates rfl hl hfails
    simp only [onTimeTest, hl, Bool.and_eq_true, Bool.or_eq_true, Bool.not_eq_true',
      Option.isNone_iff_eq_none] at h
    exact h.2.resolve_left hfails

theorem onTime_of_check {pdp : PolicyDecisionPoint σ E} {ttl : Duration} {s : CachingPDP σ} {n : ℕ}
    {es : List (CacheEvent E)}
    (h : checkAlong (exec (cacheProgram pdp ttl)) (onTimeTest n) (Site.idle s) es = true) :
    Along (exec (cacheProgram pdp ttl)) OnTime (Site.idle s) es := by
  refine along_of_among (fun s e ht => ?_) (fun _ _ hs ht => onTime_of_test hs ht) h
  cases e with
  | start i q => exact of_decide_eq_true ht
  | step i w => exact of_decide_eq_true (Bool.and_eq_true_iff.mp ht).1

end Freshness

section Samples

/-- A decision point that keeps what one user may see, and forgets what is deleted. -/
def visibleObjects : PolicyDecisionPoint (List String) PdpError where
  listObjects s _ := .ok s
  write s updates := .ok (s.filter fun o => updates.all fun u => u.op ≠ .delete || u.tuple.object ≠ o)

def defaultTTL : Duration := 3*10^9

def asset : String := "org:a/asset:1"

def visible : CallRequest := .listObjects ⟨"membership:1", "viewer", "org:a/asset"⟩

def revoke : CallRequest := .write [⟨.delete, ⟨"membership:1", "viewer", asset⟩, none⟩]

/-- A tenth of a second passes, and the decision point answers. -/
def tick : World PdpError := ⟨10^8, none, false⟩

def listThenRevoke : List (CacheEvent PdpError) :=
  [.start 0 visible, .step 0 tick, .step 0 tick, .step 0 tick, .step 0 tick,
    .start 1 revoke, .step 1 tick, .step 1 tick]

/-- A listing that is computed before a revocation and put into the cache after it. -/
def revokeWithinList : List (CacheEvent PdpError) :=
  [.start 0 visible, .step 0 tick, .step 0 tick, .step 0 tick,
    .start 1 revoke, .step 1 tick, .step 1 tick, .step 0 tick]

def listAgain : List (CacheEvent PdpError) :=
  [.start 2 visible, .step 2 tick, .step 2 tick, .step 2 tick, .step 2 tick]

theorem listing_after_revocation : ∃ s s' now listing,
    run (exec (cacheProgram visibleObjects defaultTTL)) (Site.idle (.new [asset] 0)) listThenRevoke = some s ∧
    run (exec (cacheProgram visibleObjects defaultTTL)) s listAgain = some s' ∧
    s'.call 2 = some (.listed now listing) ∧ Returned s 1 1 ∧ 1 ≤ listing.writes ∧
    now ≤ listing.computedAt + defaultTTL := by
  have hok : Along (exec (cacheProgram visibleObjects defaultTTL)) OnTime
      (Site.idle (.new [asset] 0)) (listThenRevoke ++ listAgain) :=
    onTime_of_check (n := 3) (by decide +kernel)
  have hreturned (s : CacheSite (List String) PdpError) (h : s.call 1 = some (.wrote 1)) :
      Returned s 1 1 := Or.inl h
  refine ⟨_, _, _, _, rfl, rfl, rfl, hreturned _ rfl, ?_⟩
  obtain ⟨⟨-, -, hage⟩, hfresh⟩ := @listings_fresh (List String) PdpError visibleObjects defaultTTL
    [asset] 0 listThenRevoke listAgain _ _ rfl rfl 2 _ _ rfl rfl
  exact ⟨hfresh hok 1 1 (hreturned _ rfl), hage⟩

/-- A fill that lands after the flush brings the revoked object back. -/
theorem revoked_object_listed : ∃ s s' now listing,
    run (exec (cacheProgram visibleObjects defaultTTL)) (Site.idle (.new [asset] 0)) revokeWithinList = some s ∧
    run (exec (cacheProgram visibleObjects defaultTTL)) s
      [.start 2 visible, .step 2 tick, .step 2 tick] = some s' ∧
    s.call 2 = none ∧ Returned s 1 1 ∧ s'.call 2 = some (.listed now listing) ∧
    listing.objects = [asset] ∧ listing.writes < 1 := by
  have hreturned (s : CacheSite (List String) PdpError) (h : s.call 1 = some (.wrote 1)) :
      Returned s 1 1 := Or.inl h
  exact ⟨_, _, _, _, rfl, rfl, rfl, hreturned _ rfl, rfl, rfl, by decide⟩

end Samples

end ArchGuard.PdpCache
