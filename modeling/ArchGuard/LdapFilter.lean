import Mathlib.Tactic.Common

/-! LDAP search filters in their string representation: the grammar, that a text is read in one way
only, and the three-valued meaning. -/
namespace LdapFilter

section Items

def isKeyChar (c : Char) : Bool := c.isAlphanum || c = '-'

def isDescr : List Char → Bool
  | [] => false
  | c :: cs => c.isAlpha && cs.all isKeyChar

def isNumber : List Char → Bool
  | [] => false
  | c :: cs => c.isDigit && cs.all Char.isDigit && (c ≠ '0' || cs.isEmpty)

def isNumericOid (cs : List Char) : Bool :=
  2 ≤ (cs.splitOn '.').length && (cs.splitOn '.').all isNumber

def isOid (cs : List Char) : Bool := isDescr cs || isNumericOid cs

def isOptions : List (List Char) → Bool
  | opts => opts.all fun o => !o.isEmpty && o.all isKeyChar

/-- An attribute description: a type and its options. -/
def isAttr (cs : List Char) : Bool :=
  match cs.splitOn ';' with
  | [] => false
  | t :: opts => isOid t && isOptions opts

def isHex (c : Char) : Bool := c.isDigit || ('a' ≤ c && c ≤ 'f') || ('A' ≤ c && c ≤ 'F')

/-- An assertion value, in which five characters are escaped. -/
def isValue : List Char → Bool
  | [] => true
  | '\\' :: a :: b :: cs => isHex a && isHex b && isValue cs
  | c :: cs => c ∉ ['\x00', '(', ')', '*', '\\'] && isValue cs

/-- The text of an item, without its parentheses. -/
inductive IsItem : List Char → Prop
  | simple {attr op value : List Char} : isAttr attr = true →
      op ∈ [['='], ['~', '='], ['>', '='], ['<', '=']] → isValue value = true →
      IsItem (attr ++ (op ++ value))
  /-- With nothing but one asterisk this is the test for presence. -/
  | substring {attr initial final : List Char} {any : List (List Char)} : isAttr attr = true →
      isValue initial = true → (∀ v ∈ any, isValue v = true) → isValue final = true →
      IsItem (attr ++ ('=' :: (initial ++ ('*' :: (any.flatMap (· ++ ['*']) ++ final)))))
  | extensible {attr dn rule value : List Char} : (attr = [] ∨ isAttr attr = true) →
      dn ∈ [[], [':', 'd', 'n']] → (rule = [] ∨ ∃ o, rule = ':' :: o ∧ isOid o = true) →
      (attr ≠ [] ∨ rule ≠ []) → isValue value = true →
      IsItem (attr ++ (dn ++ (rule ++ (':' :: '=' :: value))))

/-- What may not stand in an item. -/
def Clean (cs : List Char) : Prop := '(' ∉ cs ∧ ')' ∉ cs

theorem Clean.append {cs ds : List Char} (hc : Clean cs) (hd : Clean ds) : Clean (cs ++ ds) :=
  ⟨fun h => (List.mem_append.mp h).elim hc.1 hd.1, fun h => (List.mem_append.mp h).elim hc.2 hd.2⟩

theorem Clean.cons {c : Char} {cs : List Char} (hne : c ≠ '(' ∧ c ≠ ')') (hc : Clean cs) :
    Clean (c :: cs) :=
  ⟨fun h => (List.mem_cons.mp h).elim (fun he => hne.1 he.symm) hc.1,
    fun h => (List.mem_cons.mp h).elim (fun he => hne.2 he.symm) hc.2⟩

theorem clean_nil : Clean [] := ⟨List.not_mem_nil, List.not_mem_nil⟩

theorem clean_of_forall {cs : List Char} (h : ∀ c ∈ cs, c ≠ '(' ∧ c ≠ ')') : Clean cs :=
  ⟨fun hm => (h _ hm).1 rfl, fun hm => (h _ hm).2 rfl⟩

theorem ne_of_test {p : Char → Bool} {c d : Char} (h : p c = true) (hd : p d = false) : c ≠ d := by
  intro heq
  rw [heq, hd] at h
  cases h

theorem ne_of_isAlphanum {c : Char} (h : c.isAlphanum = true) : c ≠ '(' ∧ c ≠ ')' :=
  ⟨ne_of_test h (by decide), ne_of_test h (by decide)⟩

theorem ne_of_isKeyChar {c : Char} (h : isKeyChar c = true) : c ≠ '(' ∧ c ≠ ')' := by
  rcases Bool.or_eq_true_iff.mp h with h | h
  · exact ne_of_isAlphanum h
  · rw [of_decide_eq_true h]
    decide

theorem ne_of_isDigit {c : Char} (h : c.isDigit = true) : c ≠ '(' ∧ c ≠ ')' :=
  ne_of_isAlphanum (by rw [Char.isAlphanum, h, Bool.or_true])

theorem clean_of_splitOn {cs : List Char} {sep : Char} (hsep : sep ≠ '(' ∧ sep ≠ ')')
    (h : ∀ part ∈ cs.splitOn sep, Clean part) : Clean cs := by
  have hjoin : [sep].intercalate (cs.splitOn sep) = cs := List.intercalate_splitOn sep
  rw [← hjoin]
  generalize cs.splitOn sep = parts at h
  induction parts with
  | nil => exact clean_nil
  | cons part parts ih =>
    have hpart := h part List.mem_cons_self
    have hrest := ih fun p hp => h p (List.mem_cons_of_mem _ hp)
    cases parts with
    | nil => simpa [List.intercalate] using hpart
    | cons next rest =>
      have hcons : [sep].intercalate (part :: next :: rest) =
          part ++ (sep :: [sep].intercalate (next :: rest)) := by
        simp [List.intercalate, List.intersperse]
      rw [hcons]
      exact hpart.append (hrest.cons hsep)

theorem isNumber_chars {cs : List Char} (h : isNumber cs = true) :
    ∀ c ∈ cs, c.isDigit = true := by
  cases cs with
  | nil => cases h
  | cons c cs =>
    simp only [isNumber, Bool.and_eq_true, List.all_eq_true] at h
    exact List.forall_mem_cons.mpr ⟨h.1.1, h.1.2⟩

theorem clean_isOid {cs : List Char} (h : isOid cs = true) : Clean cs := by
  rcases Bool.or_eq_true_iff.mp h with h | h
  · cases cs with
    | nil => exact clean_nil
    | cons c cs =>
      simp only [isDescr, Bool.and_eq_true, List.all_eq_true] at h
      apply Clean.cons (ne_of_isAlphanum (by rw [Char.isAlphanum, h.1, Bool.true_or]))
      exact clean_of_forall fun d hd => ne_of_isKeyChar (h.2 d hd)
  · simp only [isNumericOid, Bool.and_eq_true, List.all_eq_true] at h
    have hsep : '.' ≠ '(' ∧ '.' ≠ ')' := by decide
    apply clean_of_splitOn hsep
    intro part hpart
    exact clean_of_forall fun d hd => ne_of_isDigit (isNumber_chars (h.2 part hpart) d hd)

theorem clean_isAttr {cs : List Char} (h : isAttr cs = true) : Clean cs := by
  have hsep : ';' ≠ '(' ∧ ';' ≠ ')' := by decide
  apply clean_of_splitOn hsep
  unfold isAttr at h
  cases hparts : cs.splitOn ';' with
  | nil =>
    intro part hpart
    cases hpart
  | cons t opts =>
    rw [hparts] at h
    simp only [isOptions, Bool.and_eq_true, List.all_eq_true] at h
    apply List.forall_mem_cons.mpr ⟨clean_isOid h.1, ?_⟩
    intro o ho
    exact clean_of_forall fun d hd => ne_of_isKeyChar ((h.2 o ho).2 d hd)

theorem clean_isValue {cs : List Char} (h : isValue cs = true) : Clean cs := by
  have hhex {c : Char} (hc : isHex c = true) : c ≠ '(' ∧ c ≠ ')' :=
    ⟨ne_of_test hc (by decide), ne_of_test hc (by decide)⟩
  induction cs using isValue.induct with
  | case1 => exact clean_nil
  | case2 a b cs ih =>
    simp only [isValue, Bool.and_eq_true] at h
    exact Clean.cons (by decide) (Clean.cons (hhex h.1.1) (Clean.cons (hhex h.1.2) (ih h.2)))
  | case3 c cs hne ih =>
    rw [isValue] at h
    · simp only [Bool.and_eq_true, decide_eq_true_eq, List.mem_cons, not_or] at h
      exact Clean.cons ⟨h.1.2.1, h.1.2.2.1⟩ (ih h.2)
    · exact hne

end Items

section Heads

/-- What an item begins with. -/
def Heads (cs : List Char) : Prop := ∃ c ds, cs = c :: ds ∧ c ≠ '&' ∧ c ≠ '|' ∧ c ≠ '!'

theorem Heads.append {cs : List Char} (h : Heads cs) (ds : List Char) : Heads (cs ++ ds) := by
  obtain ⟨c, rest, rfl, hne⟩ := h
  exact ⟨c, rest ++ ds, rfl, hne⟩

theorem heads_of_isAlphanum {c : Char} (h : c.isAlphanum = true) (ds : List Char) :
    Heads (c :: ds) := by
  exact ⟨c, ds, rfl, ne_of_test h (by decide), ne_of_test h (by decide), ne_of_test h (by decide)⟩

theorem heads_of_splitOn {cs t : List Char} {sep : Char} {rest : List (List Char)}
    (h : cs.splitOn sep = t :: rest) (ht : Heads t) : Heads cs := by
  have hjoin : [sep].intercalate (cs.splitOn sep) = cs := List.intercalate_splitOn sep
  rw [h] at hjoin
  rw [← hjoin]
  cases rest with
  | nil => simpa [List.intercalate] using ht
  | cons next rest =>
    have hcons : [sep].intercalate (t :: next :: rest) =
        t ++ (sep :: [sep].intercalate (next :: rest)) := by
      simp [List.intercalate, List.intersperse]
    rw [hcons]
    exact ht.append _

theorem heads_isOid {cs : List Char} (h : isOid cs = true) : Heads cs := by
  rcases Bool.or_eq_true_iff.mp h with h | h
  · cases cs with
    | nil => cases h
    | cons c cs =>
      simp only [isDescr, Bool.and_eq_true] at h
      exact heads_of_isAlphanum (by rw [Char.isAlphanum, h.1, Bool.true_or]) cs
  · simp only [isNumericOid, Bool.and_eq_true, List.all_eq_true] at h
    cases hparts : cs.splitOn '.' with
    | nil =>
      rw [hparts] at h
      exact absurd h.1 (by decide)
    | cons t rest =>
      apply heads_of_splitOn hparts
      have ht := h.2 t (hparts ▸ List.mem_cons_self)
      cases t with
      | nil => cases ht
      | cons c t =>
        have hc := isNumber_chars ht c List.mem_cons_self
        exact heads_of_isAlphanum (by rw [Char.isAlphanum, hc, Bool.or_true]) t

theorem heads_isAttr {cs : List Char} (h : isAttr cs = true) : Heads cs := by
  unfold isAttr at h
  cases hparts : cs.splitOn ';' with
  | nil =>
    rw [hparts] at h
    cases h
  | cons t opts =>
    rw [hparts] at h
    simp only [Bool.and_eq_true] at h
    exact heads_of_splitOn hparts (heads_isOid h.1)

theorem IsItem.facts {cs : List Char} (h : IsItem cs) : Clean cs ∧ Heads cs := by
  cases h with
  | @simple attr op value hattr hop hvalue =>
    refine ⟨(clean_isAttr hattr).append (Clean.append ?_ (clean_isValue hvalue)),
      (heads_isAttr hattr).append _⟩
    simp only [List.mem_cons, List.not_mem_nil, or_false] at hop
    rcases hop with rfl | rfl | rfl | rfl <;> exact ⟨by decide, by decide⟩
  | @substring attr initial final any hattr hinitial hany hfinal =>
    have hparts : Clean (any.flatMap (· ++ ['*'])) := by
      induction any with
      | nil => exact clean_nil
      | cons v any ih =>
        obtain ⟨hv, hrest⟩ := List.forall_mem_cons.mp hany
        rw [List.flatMap_cons]
        exact ((clean_isValue hv).append (clean_nil.cons (by decide))).append (ih hrest)
    refine ⟨(clean_isAttr hattr).append (Clean.cons (by decide) ((clean_isValue hinitial).append
      (Clean.cons (by decide) (hparts.append (clean_isValue hfinal))))), ?_⟩
    exact (heads_isAttr hattr).append _
  | @extensible attr dn rule value hattr hdn hrule hsome hvalue =>
    have htail : Clean (':' :: '=' :: value) :=
      Clean.cons (by decide) (Clean.cons (by decide) (clean_isValue hvalue))
    have hcdn : Clean dn := by
      simp only [List.mem_cons, List.not_mem_nil, or_false] at hdn
      rcases hdn with rfl | rfl
      · exact clean_nil
      · exact ⟨by decide, by decide⟩
    have hcrule : Clean rule := by
      rcases hrule with rfl | ⟨o, rfl, ho⟩
      · exact clean_nil
      · exact Clean.cons (by decide) (clean_isOid ho)
    have hcattr : Clean attr := hattr.elim (fun h => h ▸ clean_nil) clean_isAttr
    refine ⟨hcattr.append (hcdn.append (hcrule.append htail)), ?_⟩
    have hcolon (ds : List Char) : Heads (':' :: ds) := ⟨':', ds, rfl, by decide⟩
    rcases hattr with rfl | hattr
    · -- without an attribute the item begins with the colon of what comes first
      simp only [List.mem_cons, List.not_mem_nil, or_false] at hdn
      rcases hdn with rfl | rfl
      · rcases hrule with rfl | ⟨o, rfl, -⟩
        · exact absurd hsome (by simp)
        · exact hcolon _
      · exact hcolon _
    · exact (heads_isAttr hattr).append _

end Heads

abbrev Item := {cs : List Char // IsItem cs}

mutual

inductive Filter
  | item (i : Item)
  | not (f : Filter)
  | all (fs : Filters)
  | any (fs : Filters)

inductive Filters
  | one (f : Filter)
  | cons (f : Filter) (fs : Filters)

end

mutual

def Filter.render : Filter → List Char
  | .item i => '(' :: (i.1 ++ [')'])
  | .not f => '(' :: '!' :: (f.render ++ [')'])
  | .all fs => '(' :: '&' :: (fs.render ++ [')'])
  | .any fs => '(' :: '|' :: (fs.render ++ [')'])

def Filters.render : Filters → List Char
  | .one f => f.render
  | .cons f fs => f.render ++ fs.render

end

section Reading

theorem Filter.render_head (f : Filter) : ∃ cs, f.render = '(' :: cs := by
  cases f <;> exact ⟨_, by rw [render]⟩

theorem Filters.render_head (fs : Filters) : ∃ cs, fs.render = '(' :: cs := by
  cases fs with
  | one f => exact f.render_head
  | cons f fs =>
    obtain ⟨cs, hcs⟩ := f.render_head
    exact ⟨cs ++ fs.render, by rw [render, hcs]; rfl⟩

theorem append_cons_inj {c : Char} {as bs r r' : List Char} (ha : c ∉ as) (hb : c ∉ bs)
    (h : as ++ c :: r = bs ++ c :: r') : as = bs ∧ r = r' := by
  induction as generalizing bs with
  | nil =>
    cases bs with
    | nil => exact ⟨rfl, (List.cons.inj h).2⟩
    | cons b bs =>
      obtain ⟨rfl, -⟩ := List.cons.inj h
      exact absurd List.mem_cons_self hb
  | cons a as ih =>
    cases bs with
    | nil =>
      obtain ⟨rfl, -⟩ := List.cons.inj h
      exact absurd List.mem_cons_self ha
    | cons b bs =>
      obtain ⟨rfl, htail⟩ := List.cons.inj h
      obtain ⟨rfl, hr⟩ := ih (fun hm => ha (List.mem_cons_of_mem _ hm))
        (fun hm => hb (List.mem_cons_of_mem _ hm)) htail
      exact ⟨rfl, hr⟩

/-- The first character within the parentheses tells what kind of filter it is. -/
theorem item_render_ne (i : Item) {c : Char} (hc : c = '&' ∨ c = '|' ∨ c = '!')
    (cs r : List Char) : (Filter.item i).render ++ r ≠ '(' :: c :: cs := by
  obtain ⟨d, ds, hi, hamp, hbar, hbang⟩ := i.2.facts.2
  rw [Filter.render, hi]
  intro h
  obtain ⟨rfl, -⟩ := List.cons.inj (List.cons.inj h).2
  rcases hc with rfl | rfl | rfl
  · exact hamp rfl
  · exact hbar rfl
  · exact hbang rfl

mutual

/-- A filter at the beginning of a text can be read in one way only. -/
theorem render_append_inj : ∀ (f g : Filter) {r r' : List Char},
    f.render ++ r = g.render ++ r' → f = g ∧ r = r'
  | .item i, .item j, r, r', h => by
    rw [Filter.render, Filter.render] at h
    simp only [List.cons_append, List.append_assoc, List.nil_append] at h
    obtain ⟨heq, hr⟩ := append_cons_inj i.2.facts.1.2 j.2.facts.1.2 (List.cons.inj h).2
    exact ⟨congrArg Filter.item (Subtype.ext heq), hr⟩
  | .not f, .not g, r, r', h => by
    rw [Filter.render, Filter.render] at h
    simp only [List.cons_append, List.append_assoc, List.nil_append] at h
    obtain ⟨rfl, hr⟩ := render_append_inj f g (List.cons.inj (List.cons.inj h).2).2
    exact ⟨rfl, (List.cons.inj hr).2⟩
  | .all fs, .all gs, r, r', h => by
    rw [Filter.render, Filter.render] at h
    simp only [List.cons_append, List.append_assoc, List.nil_append] at h
    obtain ⟨rfl, hr⟩ := renders_append_inj fs gs (List.cons.inj (List.cons.inj h).2).2
    exact ⟨rfl, hr⟩
  | .any fs, .any gs, r, r', h => by
    rw [Filter.render, Filter.render] at h
    simp only [List.cons_append, List.append_assoc, List.nil_append] at h
    obtain ⟨rfl, hr⟩ := renders_append_inj fs gs (List.cons.inj (List.cons.inj h).2).2
    exact ⟨rfl, hr⟩
  | .item i, .not g, r, r', h => by
    rw [Filter.render.eq_2 g] at h
    exact absurd h (item_render_ne i (Or.inr (Or.inr rfl)) _ _)
  | .item i, .all gs, r, r', h => by
    rw [Filter.render.eq_3 gs] at h
    exact absurd h (item_render_ne i (Or.inl rfl) _ _)
  | .item i, .any gs, r, r', h => by
    rw [Filter.render.eq_4 gs] at h
    exact absurd h (item_render_ne i (Or.inr (Or.inl rfl)) _ _)
  | .not f, .item j, r, r', h => by
    rw [Filter.render.eq_2 f] at h
    exact absurd h.symm (item_render_ne j (Or.inr (Or.inr rfl)) _ _)
  | .all fs, .item j, r, r', h => by
    rw [Filter.render.eq_3 fs] at h
    exact absurd h.symm (item_render_ne j (Or.inl rfl) _ _)
  | .any fs, .item j, r, r', h => by
    rw [Filter.render.eq_4 fs] at h
    exact absurd h.symm (item_render_ne j (Or.inr (Or.inl rfl)) _ _)
  | .not f, .all gs, r, r', h => by simp [Filter.render] at h
  | .not f, .any gs, r, r', h => by simp [Filter.render] at h
  | .all fs, .not g, r, r', h => by simp [Filter.render] at h
  | .all fs, .any gs, r, r', h => by simp [Filter.render] at h
  | .any fs, .not g, r, r', h => by simp [Filter.render] at h
  | .any fs, .all gs, r, r', h => by simp [Filter.render] at h

theorem renders_append_inj : ∀ (fs gs : Filters) {r r' : List Char},
    fs.render ++ ')' :: r = gs.render ++ ')' :: r' → fs = gs ∧ r = r'
  | .one f, .one g, r, r', h => by
    obtain ⟨rfl, hr⟩ := render_append_inj f g h
    exact ⟨rfl, (List.cons.inj hr).2⟩
  | .cons f fs, .cons g gs, r, r', h => by
    rw [Filters.render, Filters.render, List.append_assoc, List.append_assoc] at h
    obtain ⟨rfl, hr⟩ := render_append_inj f g h
    obtain ⟨rfl, hr'⟩ := renders_append_inj fs gs hr
    exact ⟨rfl, hr'⟩
  | .one f, .cons g gs, r, r', h => by
    rw [Filters.render, Filters.render, List.append_assoc] at h
    obtain ⟨-, hr⟩ := render_append_inj f g h
    obtain ⟨cs, hcs⟩ := gs.render_head
    rw [hcs] at hr
    exact absurd (List.cons.inj hr).1 (by decide)
  | .cons f fs, .one g, r, r', h => by
    rw [Filters.render, Filters.render, List.append_assoc] at h
    obtain ⟨-, hr⟩ := render_append_inj f g h
    obtain ⟨cs, hcs⟩ := fs.render_head
    rw [hcs] at hr
    exact absurd (List.cons.inj hr).1 (by decide)

end

theorem render_injective {f g : Filter} (h : f.render = g.render) : f = g := by
  have happend : f.render ++ [] = g.render ++ [] := by rw [h]
  exact (render_append_inj f g happend).1

end Reading

/-- The value of a filter for an entry; it may be undefined. -/
abbrev Truth := Option Bool

def Truth.not (a : Truth) : Truth := a.map Bool.not

def Truth.and (a b : Truth) : Truth :=
  if a = some false ∨ b = some false then some false
  else if a = some true ∧ b = some true then some true
  else none

def Truth.or (a b : Truth) : Truth := (a.not.and b.not).not

section Meaning

variable (holds : Item → Truth)

mutual

def Filter.eval : Filter → Truth
  | .item i => holds i
  | .not f => f.eval.not
  | .all fs => fs.evalAll
  | .any fs => fs.evalAny

def Filters.evalAll : Filters → Truth
  | .one f => f.eval
  | .cons f fs => f.eval.and fs.evalAll

def Filters.evalAny : Filters → Truth
  | .one f => f.eval
  | .cons f fs => f.eval.or fs.evalAny

end

theorem Truth.and_eq_true {a b : Truth} : a.and b = some true ↔ a = some true ∧ b = some true := by
  unfold Truth.and
  split_ifs with hfalse htrue
  · rcases hfalse with rfl | rfl <;> simp
  · simp [htrue]
  · simpa using htrue

theorem eval_all_two (f g : Filter) : (Filter.all (.cons f (.one g))).eval holds = some true ↔
    f.eval holds = some true ∧ g.eval holds = some true := by
  rw [Filter.eval, Filters.evalAll, Filters.evalAll, Truth.and_eq_true]

end Meaning

end LdapFilter
