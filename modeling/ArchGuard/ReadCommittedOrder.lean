import ArchGuard.ReadCommittedFrame

/-! Rows that only move forward: an order on the versions of each row, which every statement
respects between the version that it sees and the one that it writes. -/
namespace ReadCommitted
open TransitionRun

variable {K R L : Type} {V : K → Type}

/-- An order on the versions of each row; that there is no row is a version too. -/
structure VersionOrder (V : K → Type) where
  le : (k : K) → Option (V k) → Option (V k) → Prop
  refl : ∀ k r, le k r r
  trans : ∀ {k r s t}, le k r s → le k s t → le k r t

/-- What a row meets once, its later versions meet. -/
def VersionOrder.absorbing (F : (k : K) → V k → Prop) : VersionOrder V where
  le k r s := ∀ v, r = some v → F k v → ∃ w, s = some w ∧ F k w
  refl _ _ v hr hv := ⟨v, hr, hv⟩
  trans h h' v hr hv := by
    obtain ⟨w, hs, hw⟩ := h v hr hv
    exact h' w hs hw

/-- Rows stay, and their later versions are above the earlier ones. -/
def VersionOrder.above (R : (k : K) → V k → V k → Prop) (hrefl : ∀ k v, R k v v)
    (htrans : ∀ k u v w, R k u v → R k v w → R k u w) : VersionOrder V where
  le k r s := ∀ v, r = some v → ∃ w, s = some w ∧ R k v w
  refl k _ v hr := ⟨v, hr, hrefl k v⟩
  trans := by
    intro k r s t h h' v hr
    obtain ⟨w, hs, hw⟩ := h v hr
    obtain ⟨u, ht, hu⟩ := h' w hs
    exact ⟨u, ht, htrans k v w u hw hu⟩

theorem VersionOrder.above_none {R : (k : K) → V k → V k → Prop} {hrefl : ∀ k v, R k v v}
    {htrans : ∀ k u v w, R k u v → R k v w → R k u w} {k : K} {r : Option (V k)} :
    (VersionOrder.above R hrefl htrans).le k none r := fun _ hv => by cases hv

theorem VersionOrder.above_some {R : (k : K) → V k → V k → Prop} {hrefl : ∀ k v, R k v v}
    {htrans : ∀ k u v w, R k u v → R k v w → R k u w} {k : K} {v w : V k} (h : R k v w) :
    (VersionOrder.above R hrefl htrans).le k (some v) (some w) := by
  intro u hu
  obtain rfl := Option.some.inj hu
  exact ⟨w, rfl, h⟩

theorem VersionOrder.absorbing_none {F : (k : K) → V k → Prop} {k : K} {r : Option (V k)} :
    (VersionOrder.absorbing F).le k none r := fun _ hv => by cases hv

theorem VersionOrder.absorbing_some {F : (k : K) → V k → Prop} {k : K} {v w : V k}
    (h : F k v → F k w) : (VersionOrder.absorbing F).le k (some v) (some w) := by
  intro u hu hF
  obtain rfl := Option.some.inj hu
  exact ⟨w, rfl, h hF⟩

variable (o : VersionOrder V)

/-- Every version that a transaction holds follows the committed one. -/
def LocksForward (c : Cfg V L) : Prop := ∀ k i r, c.lock k = some (i, r) → o.le k (c.db.row k) r

/-- Every committed row of the second configuration follows that of the first. -/
def RowsForward (c c' : Cfg V L) : Prop := ∀ k, o.le k (c.db.row k) (c'.db.row k)

variable {o} {c : Cfg V L} {i : ℕ}

theorem locksForward_idle (db : Store V) : LocksForward o (Cfg.idle db : Cfg V L) :=
  fun _ _ _ h => by cases h

theorem LocksForward.view (hc : LocksForward o c) (k : K) :
    o.le k (c.db.row k) (c.viewRow i k) := by
  rcases c.viewRow_cases i k with ⟨r, hr, heq⟩ | ⟨-, heq⟩
  · rw [heq]
    exact hc k i r hr
  · rw [heq]
    exact o.refl k _

variable (o) [DecidableEq K]

/-- What the statement writes follows what its transaction sees. -/
def WritesForward (P : Program V R L) (c : Cfg V L) (e : Event R) : Prop :=
  ∀ i l k r, e = .step i → c.proc i = some l → Writes c i (P.next l) k r →
    o.le k (c.viewRow i k) r

variable {o} {P : Program V R L} {c' : Cfg V L} {e : Event R}

theorem LocksForward.step (hc : LocksForward o c) (hok : WritesForward o P c e)
    (h : exec P c e = some c') : LocksForward o c' := by
  intro k j r hl
  rw [row_of_locked h hl]
  rcases lock_of_exec h hl with hlock | ⟨l, he, hp, hw⟩
  · exact hc k j r hlock
  · exact o.trans (hc.view k) (hok j l k r he hp hw)

theorem LocksForward.rows (hc : LocksForward o c) (h : exec P c e = some c') :
    RowsForward o c c' := by
  intro k
  rcases row_of_exec h with heq | ⟨i, l, n, -, -, -, rfl⟩
  · rw [heq]
    exact o.refl k _
  · exact hc.view k

theorem rows_forward {db : Store V} {pre post : List (Event R)}
    (hok : Along (exec P) (WritesForward o P) (Cfg.idle db) (pre ++ post))
    (hpre : run (exec P) (Cfg.idle db) pre = some c) (hpost : run (exec P) c post = some c') :
    RowsForward o c c' := by
  obtain ⟨hokpre, hokpost⟩ := along_append.mp hok
  have hc : LocksForward o c :=
    run_invariant (fun _ _ _ hI hw he => hI.step hw he) (locksForward_idle db) hokpre hpre
  apply run_relation (R := RowsForward o) (fun s k => o.refl k _) ?_ ?_ hc (hokpost c hpre) hpost
  · exact fun s t u hst htu k => o.trans (hst k) (htu k)
  · exact fun _ _ _ hI hw he => ⟨hI.step hw he, hI.rows he⟩

theorem rows_forward_of_invariant {I : Cfg V L → Prop} {ok : Cfg V L → Event R → Prop}
    (hstep : ∀ c e c', I c → exec P c e = some c' → I c')
    (hforward : ∀ c e, I c → ok c e → WritesForward o P c e) {db : Store V}
    (hI : I (Cfg.idle db)) {pre post : List (Event R)}
    (hok : Along (exec P) ok (Cfg.idle db) (pre ++ post))
    (hpre : run (exec P) (Cfg.idle db) pre = some c) (hpost : run (exec P) c post = some c') :
    RowsForward o c c' := by
  have halong : Along (exec P) (WritesForward o P) (Cfg.idle db) (pre ++ post) :=
    along_imp (fun s e s' hs _ => hstep s e s' hs) hforward hI hok
  exact rows_forward halong hpre hpost

end ReadCommitted
