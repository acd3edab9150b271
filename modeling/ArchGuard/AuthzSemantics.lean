import ArchGuard.AuthzResolver
import ArchGuard.PathSearch

/-! What the model means: the relation of a graph is the least one closed under the
rewrite rules. -/
namespace ArchGuard.Authz
open PathSearch

section Rules

section

variable (g : GraphReader) (ctx : CheckContext) (user : String)

mutual

/-- A rewrite holds on (object, relation) when `P` holds the other goals. -/
def Holds (P : String × String → Prop) (object relation : String) : Rewrite → Prop
  | .this condition => ∃ sub ∈ g object relation, evalCondition condition sub.window ctx = true ∧
      ((∃ goal, splitUserset sub.ref = some goal ∧ P goal) ∨
        (splitUserset sub.ref = none ∧ sub.ref = user))
  | .computed rel => P (object, rel)
  | .ttu tupleset rel => ∃ sub ∈ g object tupleset, splitUserset sub.ref = none ∧ P (sub.ref, rel)
  | .union children => HoldsAny P object relation children
  | .intersection children => HoldsAll P object relation children

def HoldsAny (P : String × String → Prop) (object relation : String) : List Rewrite → Prop
  | [] => False
  | child :: children => Holds P object relation child ∨ HoldsAny P object relation children

def HoldsAll (P : String × String → Prop) (object relation : String) : List Rewrite → Prop
  | [] => True
  | child :: children => Holds P object relation child ∧ HoldsAll P object relation children

end

end

variable {g g' : GraphReader} {ctx : CheckContext} {user : String}
  {P Q : String × String → Prop} {object relation : String}

mutual

theorem Holds.mono (hg : ∀ o r, g o r ⊆ g' o r) (hPQ : P ≤ Q) : ∀ {rw : Rewrite},
    Holds g ctx user P object relation rw → Holds g' ctx user Q object relation rw
  | .this _, ⟨sub, hsub, hc, h⟩ => by
    simp only [Holds]
    exact ⟨sub, hg _ _ hsub, hc, h.imp (fun ⟨goal, hu, hP⟩ => ⟨goal, hu, hPQ goal hP⟩) fun h => h⟩
  | .computed _, h => by
    simp only [Holds] at h ⊢
    exact hPQ _ h
  | .ttu _ _, ⟨sub, hsub, hn, h⟩ => by
    simp only [Holds]
    exact ⟨sub, hg _ _ hsub, hn, hPQ _ h⟩
  | .union _, h => HoldsAny.mono hg hPQ h
  | .intersection _, h => HoldsAll.mono hg hPQ h

theorem HoldsAny.mono (hg : ∀ o r, g o r ⊆ g' o r) (hPQ : P ≤ Q) : ∀ {rws : List Rewrite},
    HoldsAny g ctx user P object relation rws → HoldsAny g' ctx user Q object relation rws
  | [], h => h
  | _ :: _, Or.inl h => Or.inl (Holds.mono hg hPQ h)
  | _ :: _, Or.inr h => Or.inr (HoldsAny.mono hg hPQ h)

theorem HoldsAll.mono (hg : ∀ o r, g o r ⊆ g' o r) (hPQ : P ≤ Q) : ∀ {rws : List Rewrite},
    HoldsAll g ctx user P object relation rws → HoldsAll g' ctx user Q object relation rws
  | [], h => h
  | _ :: _, ⟨h, hs⟩ => ⟨Holds.mono hg hPQ h, HoldsAll.mono hg hPQ hs⟩

end

section Chain

variable {c : ℕ → String × String → Prop}

mutual

theorem Holds.finitary (hc : Monotone c) : ∀ {rw : Rewrite},
    Holds g ctx user (fun x => ∃ n, c n x) object relation rw →
      ∃ n, Holds g ctx user (c n) object relation rw
  | .this _, ⟨sub, hsub, hcond, Or.inl ⟨goal, hg, n, hn⟩⟩ =>
    ⟨n, sub, hsub, hcond, Or.inl ⟨goal, hg, hn⟩⟩
  | .this _, ⟨sub, hsub, hcond, Or.inr h⟩ => ⟨0, sub, hsub, hcond, Or.inr h⟩
  | .computed _, h => by
    simp only [Holds] at h ⊢
    exact h
  | .ttu _ _, ⟨sub, hsub, hn, n, h⟩ => ⟨n, sub, hsub, hn, h⟩
  | .union _, h => HoldsAny.finitary hc h
  | .intersection _, h => HoldsAll.finitary hc h

theorem HoldsAny.finitary (hc : Monotone c) : ∀ {rws : List Rewrite},
    HoldsAny g ctx user (fun x => ∃ n, c n x) object relation rws →
      ∃ n, HoldsAny g ctx user (c n) object relation rws
  | _ :: _, Or.inl h => (Holds.finitary hc h).imp fun _ => Or.inl
  | _ :: _, Or.inr h => (HoldsAny.finitary hc h).imp fun _ => Or.inr

theorem HoldsAll.finitary (hc : Monotone c) : ∀ {rws : List Rewrite},
    HoldsAll g ctx user (fun x => ∃ n, c n x) object relation rws →
      ∃ n, HoldsAll g ctx user (c n) object relation rws
  | [], _ => ⟨0, trivial⟩
  | _ :: _, ⟨h, hs⟩ => by
    obtain ⟨m, hm⟩ := Holds.finitary hc h
    obtain ⟨n, hn⟩ := HoldsAll.finitary hc hs
    exact ⟨max m n, hm.mono (fun _ _ => List.Subset.refl _) (hc (le_max_left m n)),
      hn.mono (fun _ _ => List.Subset.refl _) (hc (le_max_right m n))⟩

end

end Chain

variable (g ctx user)

/-- The rewrite rules of the model, as an operator on relations. -/
def rules : (String × String → Prop) →o (String × String → Prop) where
  toFun P goal := ∃ rw, rewriteOf goal.1 goal.2 = some rw ∧ Holds g ctx user P goal.1 goal.2 rw
  monotone' _ _ hPQ _ := fun ⟨rw, hrw, h⟩ => ⟨rw, hrw, h.mono (fun _ _ => List.Subset.refl _) hPQ⟩

/-- `user` has `relation` on `object`: the least relation closed under the rules. -/
def Related (object relation : String) : Prop := (rules g ctx user).lfp (object, relation)

theorem rules_finitary : Finitary (rules g ctx user) := by
  rintro c hc goal ⟨rw, hrw, h⟩
  obtain ⟨n, hn⟩ := Holds.finitary hc h
  exact ⟨n, rw, hrw, hn⟩

variable {g ctx user}

/-- The rule of induction: a relation closed under the rules holds the least one. -/
theorem Related.induction (hP : ∀ o r rw, rewriteOf o r = some rw → Holds g ctx user P o r rw →
    P (o, r)) (h : Related g ctx user object relation) : P (object, relation) :=
  OrderHom.lfp_le (f := rules g ctx user) (fun _ ⟨rw, hrw, hs⟩ => hP _ _ rw hrw hs) _ h

theorem Related.mono (hg : ∀ o r, g o r ⊆ g' o r) (h : Related g ctx user object relation) :
    Related g' ctx user object relation :=
  OrderHom.lfp.monotone (show rules g ctx user ≤ rules g' ctx user from
    fun _ _ ⟨rw, hrw, hs⟩ => ⟨rw, hrw, hs.mono hg le_rfl⟩) _ h

theorem related_perm (hg : ∀ o r, (g o r).Perm (g' o r)) :
    Related g ctx user object relation ↔ Related g' ctx user object relation :=
  ⟨.mono fun o r => (hg o r).subset, .mono fun o r => (hg o r).symm.subset⟩

end Rules

end ArchGuard.Authz
