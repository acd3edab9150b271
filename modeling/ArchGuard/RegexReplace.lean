import Mathlib.Computability.Language
import Mathlib.Data.List.Infix
import Mathlib.Tactic.Common

/-! Regular expressions that match no empty text: the leftmost match, the replacement of all matches,
and when a text that went through several replacements holds no match any more. -/
namespace RegexReplace

inductive Regex (α : Type*)
  | symbol (p : α → Bool)
  | seq (r t : Regex α)
  | alt (r t : Regex α)
  | plus (r : Regex α)

namespace Regex

variable {α : Type*}

def word [DecidableEq α] : α → List α → Regex α
  | a, [] => symbol (· == a)
  | a, b :: s => seq (symbol (· == a)) (word b s)

/-- The texts that match. -/
def lang : Regex α → Language α
  | symbol p => {w | ∃ a, p a ∧ w = [a]}
  | seq r t => r.lang * t.lang
  | alt r t => r.lang + t.lang
  | plus r => r.lang * KStar.kstar r.lang

/-- One match after the other, as many as there may be before fewer. -/
def repeatEnds (step : List α → List (List α)) : (fuel : ℕ) → List α → List (List α)
  | 0, _ => []
  | fuel+1, s => (step s).flatMap fun rest => repeatEnds step fuel rest ++ [rest]

/-- What may be left of a text after a match at its front, what a backtracking search prefers first. -/
def ends : Regex α → List α → List (List α)
  | symbol _, [] => []
  | symbol p, a :: s => if p a then [s] else []
  | seq r t, s => (r.ends s).flatMap t.ends
  | alt r t, s => r.ends s ++ t.ends s
  | plus r, s => repeatEnds r.ends s.length s

/-- The leftmost match of a text: what stands before it and what after it. -/
def cut (r : Regex α) : List α → Option (List α × List α)
  | [] => none
  | a :: s =>
    match (r.ends (a :: s)).head? with
    | some rest => some ([], rest)
    | none => (r.cut s).map fun p => (a :: p.1, p.2)

/-- Every match takes a symbol, so the length of a text is fuel enough. -/
def replaceFrom (r : Regex α) (repl : List α) : (fuel : ℕ) → List α → List α
  | 0, s => s
  | fuel+1, s =>
    match r.cut s with
    | none => s
    | some (before, after) => before ++ (repl ++ replaceFrom r repl fuel after)

/-- The leftmost matches that do not overlap, each replaced. -/
def replaceAll (r : Regex α) (repl s : List α) : List α := replaceFrom r repl s.length s

def matchString (r : Regex α) (s : List α) : Bool := (r.cut s).isSome

/-- Some part of the text matches. -/
def Found (r : Regex α) (s : List α) : Prop := ∃ u ∈ r.lang, u <:+: s

-- What the search finds is what matches.

theorem mem_lang_plus {r : Regex α} {u : List α} :
    u ∈ r.plus.lang ↔ u ∈ r.lang ∨ ∃ v ∈ r.lang, ∃ w ∈ r.plus.lang, v ++ w = u := by
  have h : r.plus.lang = r.lang+r.lang*r.plus.lang := by
    calc
      r.lang*KStar.kstar r.lang = r.lang*(1+r.lang*KStar.kstar r.lang) := by
        rw [Language.one_add_self_mul_kstar_eq_kstar]
      _ = r.lang+r.lang*(r.lang*KStar.kstar r.lang) := by rw [mul_add, mul_one]
  conv_lhs => rw [h]
  rw [Language.mem_add, Language.mem_mul]

theorem nil_notMem_lang (r : Regex α) : [] ∉ r.lang := by
  induction r with
  | symbol p =>
    intro ⟨a, _, ha⟩
    exact List.cons_ne_nil a [] ha.symm
  | seq r t ihr iht =>
    intro h
    obtain ⟨u, hu, v, hv, he⟩ := Language.mem_mul.mp h
    rw [(List.append_eq_nil_iff.mp he).1] at hu
    exact ihr hu
  | alt r t ihr iht => exact fun h => h.elim ihr iht
  | plus r ih =>
    intro h
    obtain ⟨u, hu, v, hv, he⟩ := Language.mem_mul.mp h
    rw [(List.append_eq_nil_iff.mp he).1] at hu
    exact ih hu

theorem length_pos_of_mem_lang {r : Regex α} {u : List α} (h : u ∈ r.lang) : 0 < u.length := by
  apply List.length_pos_of_ne_nil
  intro hu
  exact nil_notMem_lang r (hu ▸ h)

theorem mem_repeatEnds {r : Regex α} (ih : ∀ s e, e ∈ r.ends s ↔ ∃ u ∈ r.lang, u ++ e = s)
    (fuel : ℕ) (s e : List α) (hfuel : s.length ≤ fuel) :
    e ∈ repeatEnds r.ends fuel s ↔ ∃ u ∈ r.plus.lang, u ++ e = s := by
  induction fuel generalizing s with
  | zero =>
    constructor
    · intro h
      cases h
    · intro ⟨u, hu, he⟩
      have hpos := length_pos_of_mem_lang hu
      have hlen := congrArg List.length he
      rw [List.length_append] at hlen
      omega
  | succ fuel ihf =>
    have hrest : ∀ u ∈ r.lang, ∀ rest, u ++ rest = s → rest.length ≤ fuel := by
      intro u hu rest hs
      have hpos := length_pos_of_mem_lang hu
      have hlen := congrArg List.length hs
      rw [List.length_append] at hlen
      omega
    simp only [repeatEnds, List.mem_flatMap, List.mem_append, List.mem_singleton]
    constructor
    · intro ⟨rest, hrun, he⟩
      obtain ⟨u, hu, hs⟩ := (ih s rest).mp hrun
      rcases he with he | he
      · obtain ⟨v, hv, hvs⟩ := (ihf rest (hrest u hu rest hs)).mp he
        refine ⟨u ++ v, mem_lang_plus.mpr (Or.inr ⟨u, hu, v, hv, rfl⟩), ?_⟩
        rw [List.append_assoc, hvs, hs]
      · exact ⟨u, mem_lang_plus.mpr (Or.inl hu), he ▸ hs⟩
    · intro ⟨u, hu, hs⟩
      rcases mem_lang_plus.mp hu with hu | ⟨v, hv, w, hw, hvw⟩
      · exact ⟨e, (ih s e).mpr ⟨u, hu, hs⟩, Or.inr rfl⟩
      · have hvs : v ++ (w ++ e) = s := by rw [← List.append_assoc, hvw, hs]
        refine ⟨w ++ e, (ih s (w ++ e)).mpr ⟨v, hv, hvs⟩, Or.inl ?_⟩
        exact (ihf (w ++ e) (hrest v hv (w ++ e) hvs)).mpr ⟨w, hw, rfl⟩

theorem mem_ends (r : Regex α) (s e : List α) : e ∈ r.ends s ↔ ∃ u ∈ r.lang, u ++ e = s := by
  induction r generalizing s e with
  | symbol p =>
    constructor
    · intro h
      match s with
      | [] => cases h
      | a :: s =>
        rw [ends] at h
        by_cases hp : p a
        · rw [if_pos hp, List.mem_singleton] at h
          exact ⟨[a], ⟨a, hp, rfl⟩, by rw [h, List.singleton_append]⟩
        · rw [if_neg hp] at h
          cases h
    · intro ⟨u, ⟨a, hp, hu⟩, hs⟩
      rw [← hs, hu, List.singleton_append, ends, if_pos hp]
      exact List.mem_singleton_self e
  | seq r t ihr iht =>
    simp only [ends, List.mem_flatMap, ihr, iht, lang, Language.mem_mul]
    constructor
    · intro ⟨rest, ⟨u, hu, hs⟩, v, hv, hrest⟩
      exact ⟨u ++ v, ⟨u, hu, v, hv, rfl⟩, by rw [List.append_assoc, hrest, hs]⟩
    · intro ⟨w, ⟨u, hu, v, hv, hw⟩, hs⟩
      exact ⟨v ++ e, ⟨u, hu, by rw [← List.append_assoc, hw, hs]⟩, v, hv, rfl⟩
  | alt r t ihr iht =>
    simp only [ends, List.mem_append, ihr, iht, lang, Language.mem_add]
    constructor
    · intro h
      rcases h with ⟨u, hu, hs⟩ | ⟨u, hu, hs⟩
      · exact ⟨u, Or.inl hu, hs⟩
      · exact ⟨u, Or.inr hu, hs⟩
    · intro ⟨u, hu, hs⟩
      exact hu.imp (fun hu => ⟨u, hu, hs⟩) (fun hu => ⟨u, hu, hs⟩)
  | plus r ih => exact mem_repeatEnds ih s.length s e (Nat.le_refl _)

theorem head?_ends_eq_none {r : Regex α} {s : List α} :
    (r.ends s).head? = none ↔ ∀ u ∈ r.lang, ¬u <+: s := by
  rw [List.head?_eq_none_iff, List.eq_nil_iff_forall_not_mem]
  constructor
  · intro h u hu ⟨e, he⟩
    exact h e ((mem_ends r s e).mpr ⟨u, hu, he⟩)
  · intro h e he
    obtain ⟨u, hu, hs⟩ := (mem_ends r s e).mp he
    exact h u hu ⟨e, hs⟩

theorem Found.mono {r : Regex α} {s t : List α} (h : r.Found s) (hst : s <:+: t) : r.Found t := by
  obtain ⟨u, hu, hus⟩ := h
  exact ⟨u, hu, hus.trans hst⟩

theorem not_found_nil (r : Regex α) : ¬r.Found [] := by
  intro ⟨u, hu, hs⟩
  rw [List.infix_nil] at hs
  exact nil_notMem_lang r (hs ▸ hu)

theorem found_cons {r : Regex α} {a : α} {s : List α} :
    r.Found (a :: s) ↔ (∃ u ∈ r.lang, u <+: a :: s) ∨ r.Found s := by
  constructor
  · intro ⟨u, hu, hs⟩
    exact (List.infix_cons_iff.mp hs).imp (fun hs => ⟨u, hu, hs⟩) (fun hs => ⟨u, hu, hs⟩)
  · intro h
    rcases h with ⟨u, hu, hs⟩ | h
    · exact ⟨u, hu, hs.isInfix⟩
    · exact h.mono (List.suffix_cons a s).isInfix

theorem cut_eq_some {r : Regex α} {s before after : List α} (h : r.cut s = some (before, after)) :
    (∃ u ∈ r.lang, before ++ (u ++ after) = s) ∧ ¬r.Found before := by
  induction s generalizing before with
  | nil => cases h
  | cons a s ih =>
    rw [cut] at h
    cases hends : (r.ends (a :: s)).head? with
    | some rest =>
      rw [hends] at h
      cases h
      have hmem := List.mem_of_head? hends
      exact ⟨(mem_ends r (a :: s) after).mp hmem, not_found_nil r⟩
    | none =>
      rw [hends] at h
      obtain ⟨⟨b, e⟩, hcut, hp⟩ := Option.map_eq_some_iff.mp h
      cases hp
      obtain ⟨⟨u, hu, hs⟩, hfree⟩ := ih hcut
      refine ⟨⟨u, hu, congrArg (a :: ·) hs⟩, ?_⟩
      rw [found_cons]
      apply not_or.mpr ⟨?_, hfree⟩
      intro ⟨v, hv, hpre⟩
      apply head?_ends_eq_none.mp hends v hv
      apply hpre.trans
      rw [← hs]
      exact List.prefix_append (a :: b) (u ++ e)

theorem cut_eq_none {r : Regex α} {s : List α} : r.cut s = none ↔ ¬r.Found s := by
  induction s with
  | nil => simp only [cut, not_found_nil, not_false_eq_true]
  | cons a s ih =>
    rw [cut, found_cons, not_or, ← ih]
    cases hends : (r.ends (a :: s)).head? with
    | some rest =>
      obtain ⟨u, hu, hs⟩ := (mem_ends r (a :: s) rest).mp (List.mem_of_head? hends)
      constructor
      · intro h
        cases h
      · intro h
        exact absurd ⟨u, hu, rest, hs⟩ h.1
    | none =>
      rw [Option.map_eq_none_iff]
      constructor
      · intro h
        exact ⟨fun ⟨u, hu, hs⟩ => head?_ends_eq_none.mp hends u hu hs, h⟩
      · intro h
        exact h.2

theorem matchString_eq_false {r : Regex α} {s : List α} : r.matchString s = false ↔ ¬r.Found s := by
  rw [matchString, Option.isSome_eq_false_iff, Option.isNone_iff_eq_none]
  exact cut_eq_none

theorem replaceAll_eq_self {r : Regex α} {s : List α} (repl : List α) (h : ¬r.Found s) :
    r.replaceAll repl s = s := by
  cases s with
  | nil => rfl
  | cons a s => rw [replaceAll, List.length_cons, replaceFrom, cut_eq_none.mpr h]

-- A symbol that stands in no match keeps matches apart.

def avoids (x : α) : Regex α → Bool
  | symbol p => !p x
  | seq r t => r.avoids x && t.avoids x
  | alt r t => r.avoids x && t.avoids x
  | plus r => r.avoids x

theorem notMem_of_avoids {r : Regex α} {x : α} (h : r.avoids x) {u : List α} (hu : u ∈ r.lang) :
    x ∉ u := by
  induction r generalizing u with
  | symbol p =>
    obtain ⟨a, hp, hu⟩ := hu
    rw [hu, List.mem_singleton]
    intro hx
    rw [avoids, hx, hp] at h
    cases h
  | seq r t ihr iht =>
    rw [avoids, Bool.and_eq_true] at h
    obtain ⟨v, hv, w, hw, hu⟩ := Language.mem_mul.mp hu
    rw [← hu, List.mem_append, not_or]
    exact ⟨ihr h.1 hv, iht h.2 hw⟩
  | alt r t ihr iht =>
    rw [avoids, Bool.and_eq_true] at h
    exact hu.elim (ihr h.1) (iht h.2)
  | plus r ih =>
    obtain ⟨v, hv, w, hw, hu⟩ := Language.mem_mul.mp hu
    obtain ⟨parts, hparts, hall⟩ := Language.mem_kstar.mp hw
    rw [← hu, List.mem_append, not_or]
    refine ⟨ih h hv, ?_⟩
    rw [hparts, List.mem_flatten]
    intro ⟨part, hpart, hx⟩
    exact ih h (hall part hpart) hx

theorem prefix_of_notMem {x : α} {u s t : List α} (hx : x ∉ u) (h : u <+: s ++ x :: t) : u <+: s := by
  have hcut : s ++ [x] <+: s ++ x :: t := ⟨t, List.append_cons s x t ▸ rfl⟩
  rcases List.prefix_or_prefix_of_prefix h hcut with h | h
  · rcases List.prefix_concat_iff.mp h with h | h
    · exact absurd (h ▸ List.mem_append_right s (List.mem_singleton_self x)) hx
    · exact h
  · exact absurd (h.subset (List.mem_append_right s (List.mem_singleton_self x))) hx

theorem not_found_join {r : Regex α} {x : α} (hx : r.avoids x) {s t : List α} (hs : ¬r.Found s)
    (ht : ¬r.Found t) : ¬r.Found (s ++ x :: t) := by
  induction s with
  | nil =>
    rw [List.nil_append, found_cons]
    apply not_or.mpr ⟨?_, ht⟩
    intro ⟨u, hu, hpre⟩
    have hnil := List.prefix_nil.mp (prefix_of_notMem (s := []) (notMem_of_avoids hx hu) hpre)
    exact nil_notMem_lang r (hnil ▸ hu)
  | cons a s ih =>
    rw [found_cons, not_or] at hs
    rw [List.cons_append, found_cons]
    apply not_or.mpr ⟨?_, ih hs.2⟩
    intro ⟨u, hu, hpre⟩
    exact hs.1 ⟨u, hu, prefix_of_notMem (s := a :: s) (notMem_of_avoids hx hu) hpre⟩

end Regex

-- What a match is replaced by.

/-- A label between two symbols. -/
structure Tag (α : Type*) where
  opening : α
  label : List α
  closing : α

namespace Tag

variable {α : Type*}

def text (tag : Tag α) : List α := tag.opening :: (tag.label ++ [tag.closing])

def apart (tag : Tag α) (r : Regex α) : Bool :=
  r.avoids tag.opening && r.avoids tag.closing && !r.matchString tag.label

theorem not_found_text {tag : Tag α} {r : Regex α} (h : tag.apart r) {s t : List α}
    (hs : ¬r.Found s) (ht : ¬r.Found t) : ¬r.Found (s ++ (tag.text ++ t)) := by
  rw [apart, Bool.and_eq_true, Bool.and_eq_true, Bool.not_eq_true', Regex.matchString_eq_false] at h
  have htext : s ++ (tag.text ++ t) = s ++ tag.opening :: (tag.label ++ tag.closing :: t) := by
    rw [text, List.cons_append, List.append_assoc, List.singleton_append]
  rw [htext]
  apply Regex.not_found_join h.1.1 hs
  exact Regex.not_found_join h.1.2 h.2 ht

/-- A replacement uncovers no match of another expression. -/
theorem not_found_replaceFrom {tag : Tag α} {r : Regex α} (h : tag.apart r) (other : Regex α)
    (fuel : ℕ) {s : List α} (hs : ¬r.Found s) : ¬r.Found (other.replaceFrom tag.text fuel s) := by
  induction fuel generalizing s with
  | zero => exact hs
  | succ fuel ih =>
    rw [Regex.replaceFrom]
    cases hcut : other.cut s with
    | none => exact hs
    | some p =>
      obtain ⟨⟨u, _, hs'⟩, _⟩ := Regex.cut_eq_some hcut
      have hbefore : p.1 <:+: s := hs' ▸ (List.prefix_append p.1 (u ++ p.2)).isInfix
      have hafter : p.2 <:+: s :=
        hs' ▸ ((List.suffix_append u p.2).trans (List.suffix_append p.1 (u ++ p.2))).isInfix
      apply not_found_text h
      · exact fun hp => hs (hp.mono hbefore)
      · exact ih fun hp => hs (hp.mono hafter)

theorem not_found_replaceFrom_self {tag : Tag α} {r : Regex α} (h : tag.apart r) (fuel : ℕ)
    {s : List α} (hfuel : s.length ≤ fuel) : ¬r.Found (r.replaceFrom tag.text fuel s) := by
  induction fuel generalizing s with
  | zero =>
    rw [List.length_eq_zero_iff.mp (Nat.le_zero.mp hfuel)]
    exact Regex.not_found_nil r
  | succ fuel ih =>
    rw [Regex.replaceFrom]
    cases hcut : r.cut s with
    | none => exact Regex.cut_eq_none.mp hcut
    | some p =>
      obtain ⟨⟨u, hu, hs⟩, hbefore⟩ := Regex.cut_eq_some hcut
      apply not_found_text h hbefore
      apply ih
      have hpos := Regex.length_pos_of_mem_lang hu
      have hlen := congrArg List.length hs
      rw [List.length_append, List.length_append] at hlen
      omega

end Tag

-- Several replacements, one after the other.

variable {α : Type*}

def replaceEach (rules : List (Regex α × Tag α)) (s : List α) : List α :=
  rules.foldl (fun s rule => rule.1.replaceAll rule.2.text s) s

def Apart (rules : List (Regex α × Tag α)) : Prop :=
  ∀ rule ∈ rules, ∀ other ∈ rules, rule.2.apart other.1

theorem not_found_replaceEach {r : Regex α} {rules : List (Regex α × Tag α)}
    (h : ∀ rule ∈ rules, rule.2.apart r) {s : List α}
    (hs : ¬r.Found s ∨ ∃ rule ∈ rules, rule.1 = r) : ¬r.Found (replaceEach rules s) := by
  induction rules generalizing s with
  | nil =>
    apply hs.resolve_right
    intro ⟨rule, hrule, _⟩
    exact List.not_mem_nil hrule
  | cons first rules ih =>
    have hfirst := h first List.mem_cons_self
    apply ih (fun rule hrule => h rule (List.mem_cons_of_mem first hrule))
    rcases hs with hs | ⟨rule, hrule, hr⟩
    · exact Or.inl (Tag.not_found_replaceFrom hfirst first.1 s.length hs)
    · rcases List.mem_cons.mp hrule with heq | hrule
      · rw [← hr, heq] at hfirst ⊢
        exact Or.inl (Tag.not_found_replaceFrom_self hfirst s.length (Nat.le_refl _))
      · exact Or.inr ⟨rule, hrule, hr⟩

theorem Apart.not_found {rules : List (Regex α × Tag α)} (h : Apart rules)
    {rule : Regex α × Tag α} (hrule : rule ∈ rules) (s : List α) :
    ¬rule.1.Found (replaceEach rules s) :=
  not_found_replaceEach (fun other hother => h other hother rule hrule)
    (Or.inr ⟨rule, hrule, rfl⟩)

theorem replaceEach_eq_self {rules : List (Regex α × Tag α)} {s : List α}
    (h : ∀ rule ∈ rules, ¬rule.1.Found s) : replaceEach rules s = s := by
  induction rules with
  | nil => rfl
  | cons first rules ih =>
    rw [replaceEach, List.foldl_cons, Regex.replaceAll_eq_self _ (h first List.mem_cons_self)]
    exact ih fun rule hrule => h rule (List.mem_cons_of_mem first hrule)

theorem Apart.replaceEach_replaceEach {rules : List (Regex α × Tag α)} (h : Apart rules)
    (s : List α) : replaceEach rules (replaceEach rules s) = replaceEach rules s :=
  replaceEach_eq_self fun _ hrule => h.not_found hrule s

end RegexReplace
