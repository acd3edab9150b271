import ArchGuard.LdapFilter
import ArchGuard.LdapSync

/-! The filters that a connector may be scoped with, and what the filter of an incremental pass
selects. -/
namespace ArchGuard.Ldap
open GoTime LdapFilter

inductive ScopeError
  | required
  | tooBroad
  | malformed
  deriving DecidableEq, Repr

def ScopeError.text : ScopeError → String
  | .required => "directory_connector: filtro de escopo obrigatório " ++
      "(sincronizar toda a árvore é proibido)"
  | .tooBroad => "directory_connector: filtro de escopo abrangente demais " ++
      "(equivale a sincronizar toda a árvore)"
  | .malformed => "directory_connector: filtro de escopo mal-formado"

def isSpace (c : Char) : Bool :=
  c.toNat ∈ [9, 10, 11, 12, 13, 32, 0x85, 0xA0, 0x1680, 0x2028, 0x2029, 0x202F, 0x205F, 0x3000] ||
    (0x2000 ≤ c.toNat && c.toNat ≤ 0x200A)

def trimSpace (cs : List Char) : List Char := (cs.dropWhile isSpace).rdropWhile isSpace

/-- No other character's lower case is a letter of the texts that are compared. -/
def toLower (c : Char) : Char :=
  if 'A' ≤ c ∧ c ≤ 'Z' then Char.ofNat (c.toNat+32) else c

def isMatchAllFilter (cs : List Char) : Bool :=
  let normalized := (cs.filter (· ≠ ' ')).map toLower
  normalized ∈ ["*".toList, "(*)".toList, "objectclass=*".toList, "(objectclass=*)".toList]

/-- The scan: how many parentheses are open, none when one was closed too often. -/
def scanParens : List Char → (depth : ℕ) → Option ℕ
  | [], depth => some depth
  | c :: cs, depth =>
    if c = '(' then scanParens cs (depth+1)
    else if c = ')' then if depth = 0 then none else scanParens cs (depth-1)
    else scanParens cs depth

def balancedParens (cs : List Char) : Bool := scanParens cs 0 = some 0

def validateScopeFilter (filter : String) : Except ScopeError Unit :=
  let trimmed := trimSpace filter.toList
  if trimmed = [] then .error .required
  else if isMatchAllFilter trimmed then .error .tooBroad
  else if !balancedParens trimmed then .error .malformed
  else .ok ()

section Accepted

theorem scanParens_clean {cs : List Char} (h : Clean cs) (rest : List Char) (depth : ℕ) :
    scanParens (cs ++ rest) depth = scanParens rest depth := by
  induction cs with
  | nil => rfl
  | cons c cs ih =>
    have hopen : c ≠ '(' := fun he => h.1 (he ▸ List.mem_cons_self)
    have hclose : c ≠ ')' := fun he => h.2 (he ▸ List.mem_cons_self)
    rw [List.cons_append, scanParens, if_neg hopen, if_neg hclose]
    exact ih ⟨fun hm => h.1 (List.mem_cons_of_mem _ hm), fun hm => h.2 (List.mem_cons_of_mem _ hm)⟩

theorem scanParens_open (rest : List Char) (depth : ℕ) :
    scanParens ('(' :: rest) depth = scanParens rest (depth+1) := by
  rw [scanParens, if_pos rfl]

theorem scanParens_close (rest : List Char) (depth : ℕ) :
    scanParens (')' :: rest) (depth+1) = scanParens rest depth := by
  rw [scanParens, if_neg (by decide), if_pos rfl, if_neg (Nat.succ_ne_zero depth),
    Nat.add_sub_cancel]

theorem scanParens_other {c : Char} (hne : c ≠ '(' ∧ c ≠ ')') (rest : List Char) (depth : ℕ) :
    scanParens (c :: rest) depth = scanParens rest depth := by
  rw [scanParens, if_neg hne.1, if_neg hne.2]

mutual

theorem scanParens_render : ∀ (f : Filter) (rest : List Char) (depth : ℕ),
    scanParens (f.render ++ rest) depth = scanParens rest depth
  | .item i, rest, depth => by
    rw [Filter.render, List.cons_append, List.append_assoc, scanParens_open,
      scanParens_clean i.2.facts.1]
    exact scanParens_close rest depth
  | .not f, rest, depth => by
    rw [Filter.render, List.cons_append, List.cons_append, List.append_assoc, scanParens_open,
      scanParens_other (by decide), scanParens_render f]
    exact scanParens_close rest depth
  | .all fs, rest, depth => by
    rw [Filter.render, List.cons_append, List.cons_append, List.append_assoc, scanParens_open,
      scanParens_other (by decide), scanParens_renders fs]
    exact scanParens_close rest depth
  | .any fs, rest, depth => by
    rw [Filter.render, List.cons_append, List.cons_append, List.append_assoc, scanParens_open,
      scanParens_other (by decide), scanParens_renders fs]
    exact scanParens_close rest depth

theorem scanParens_renders : ∀ (fs : Filters) (rest : List Char) (depth : ℕ),
    scanParens (fs.render ++ rest) depth = scanParens rest depth
  | .one f, rest, depth => scanParens_render f rest depth
  | .cons f fs, rest, depth => by
    rw [Filters.render, List.append_assoc, scanParens_render f, scanParens_renders fs]

end

theorem balancedParens_render (f : Filter) : balancedParens f.render = true := by
  have hscan := scanParens_render f [] 0
  rw [List.append_nil] at hscan
  exact decide_eq_true hscan

theorem render_last (f : Filter) : ∃ cs, f.render = cs ++ [')'] := by
  cases f with
  | item i => exact ⟨'(' :: i.1, by rw [Filter.render]; rfl⟩
  | not f => exact ⟨'(' :: '!' :: f.render, by rw [Filter.render]; rfl⟩
  | all fs => exact ⟨'(' :: '&' :: fs.render, by rw [Filter.render]; rfl⟩
  | any fs => exact ⟨'(' :: '|' :: fs.render, by rw [Filter.render]; rfl⟩

theorem trimSpace_render (f : Filter) : trimSpace f.render = f.render := by
  obtain ⟨cs, hcs⟩ := f.render_head
  obtain ⟨ds, hds⟩ := render_last f
  have hfront : f.render.dropWhile isSpace = f.render := by
    rw [hcs, List.dropWhile_cons_of_neg (by decide)]
  rw [trimSpace, hfront, hds, List.rdropWhile_concat_neg _ _ _ (by decide)]

theorem validateScopeFilter_render {filter : String} {f : Filter}
    (hf : f.render = filter.toList) :
    validateScopeFilter filter = .ok () ↔ isMatchAllFilter filter.toList = false := by
  obtain ⟨cs, hcs⟩ := f.render_head
  rw [validateScopeFilter, ← hf, trimSpace_render, balancedParens_render]
  rw [ite_error_eq_ok, ite_error_eq_ok, ite_error_eq_ok, hcs]
  simp

end Accepted

section Composition

def FourDigitYear (t : Time) : Prop :=
  0 ≤ (Date.ofDays (t/(86400*10^9))).year ∧ (Date.ofDays (t/(86400*10^9))).year < 10000

theorem fourDigitYear_raise {mark : Time} (h : FourDigitYear mark) (e : Entry) :
    FourDigitYear (raise mark e) := by
  rw [raise]
  cases hstamp : changeStamp e with
  | none => exact h
  | some ts =>
    show FourDigitYear (if mark < ts then ts else mark)
    by_cases hlt : mark < ts
    · rw [if_pos hlt]
      exact year_parseStamp hstamp
    · rwa [if_neg hlt]

/-- So is the year of every mark that a pass hands back. -/
theorem fourDigitYear_sync {searcher : SearchRequest → Except String (List Entry)}
    {searchBase : String} {c : DirectoryConnector} {since : Time} {res : SyncResult}
    (h : sync searcher searchBase c since = .ok res) : FourDigitYear res.highWater := by
  have hfold : ∀ (entries : List Entry) (mark : Time), FourDigitYear mark →
      FourDigitYear (entries.foldl raise mark) := by
    intro entries
    induction entries with
    | nil => exact fun _ hmark => hmark
    | cons e entries ih => exact fun mark hmark => ih _ (fourDigitYear_raise hmark e)
  obtain ⟨entries, -, rfl⟩ := sync_eq_ok h
  exact hfold entries _ (by unfold FourDigitYear; decide)

theorem isValue_of_forall {cs : List Char}
    (h : ∀ c ∈ cs, c ∉ ['\x00', '(', ')', '*', '\\']) : isValue cs = true := by
  induction cs with
  | nil => rfl
  | cons c cs ih =>
    obtain ⟨hc, hcs⟩ := List.forall_mem_cons.mp h
    have hescape : ∀ a b ds, c = '\\' → cs = a :: b :: ds → False := by
      rintro a b ds rfl -
      exact hc (by decide)
    rw [isValue]
    · rw [ih hcs, Bool.and_true]
      exact decide_eq_true hc
    · exact hescape

theorem plain_of_isDigit {c : Char} (h : c.isDigit = true) :
    c ∉ ['\x00', '(', ')', '*', '\\'] := by
  intro hm
  simp only [List.mem_cons, List.not_mem_nil, or_false] at hm
  rcases hm with rfl | rfl | rfl | rfl | rfl <;> exact absurd h (by decide)

theorem isValue_stampText (t : Time) : isValue (stampText t) = true := by
  apply isValue_of_forall
  intro c hc
  have hyear : ∀ c ∈ yearText (Date.ofDays (t/(86400*10^9))).year,
      c ∉ ['\x00', '(', ')', '*', '\\'] := by
    intro c hc
    have hsign : ∀ c ∈ (if (Date.ofDays (t/(86400*10^9))).year < 0 then ['-'] else []),
        c ∉ ['\x00', '(', ')', '*', '\\'] := by
      split_ifs
      · intro c hc
        rw [List.mem_singleton.mp hc]
        decide
      · exact fun c hc => nomatch hc
    rw [yearText] at hc
    by_cases hsmall : (Date.ofDays (t/(86400*10^9))).year.natAbs < 10^4
    · rw [if_pos hsmall] at hc
      exact (List.mem_append.mp hc).elim (hsign c)
        fun h => plain_of_isDigit (isDigit_digits _ _ c h)
    · rw [if_neg hsmall] at hc
      exact (List.mem_append.mp hc).elim (hsign c)
        fun h => plain_of_isDigit (Nat.isDigit_of_mem_toDigits (by decide) (by decide) h)
  simp only [stampText, List.append_assoc, List.mem_append] at hc
  rcases hc with hc | hc | hc | hc | hc | hc | hc
  · exact hyear c hc
  · exact plain_of_isDigit (isDigit_digits _ _ c hc)
  · exact plain_of_isDigit (isDigit_digits _ _ c hc)
  · exact plain_of_isDigit (isDigit_digits _ _ c hc)
  · exact plain_of_isDigit (isDigit_digits _ _ c hc)
  · exact plain_of_isDigit (isDigit_digits _ _ c hc)
  · rw [List.mem_singleton.mp hc]
    decide

/-- The item that asks for what changed at an instant or later. -/
def stampItem (t : Time) : Item :=
  ⟨modifyAttr.toList ++ (['>', '='] ++ stampText t),
    .simple (by decide) (by decide) (isValue_stampText t)⟩

/-- A directory, as far as filters go: the value of an item for an entry, and when an entry was
last changed. -/
structure Directory (Entry : Type) where
  holds : Item → Entry → Truth
  changed : Entry → Option Time

/-- Stamps are ordered as instants (`generalizedTimeOrderingMatch`). -/
structure Directory.Lawful {Entry : Type} (d : Directory Entry) : Prop where
  ordered : ∀ t, FourDigitYear t → t%10^9 = 0 → ∀ e,
    d.holds (stampItem t) e = some true ↔ ∃ ts, d.changed e = some ts ∧ t ≤ ts

def Directory.Selects {Entry : Type} (d : Directory Entry) (f : Filter) (e : Entry) : Prop :=
  f.eval (d.holds · e) = some true

/-- The text of a mark names its second only. -/
theorem stampText_second (t : Time) : stampText (t/10^9*10^9) = stampText t := by
  have hday : t/10^9*10^9/(86400*10^9) = t/(86400*10^9) := by lia
  have hsecond : t/10^9*10^9/10^9 = t/10^9 := by lia
  rw [stampText, stampText, hday, hsecond]

end Composition

/-- The filter of an incremental pass is well formed and is read in one way; it selects what the
scope selects, and of that what changed in the second of the mark or later. -/
theorem incremental_filter_exact {Entry : Type} {d : Directory Entry} (hd : d.Lawful)
    {scopeFilter : String} {f : Filter} (hf : f.render = scopeFilter.toList) {mark : Time}
    (hmark : mark ≠ Time.zero) (hyear : FourDigitYear mark) :
    (validateScopeFilter scopeFilter = .ok () ↔ isMatchAllFilter scopeFilter.toList = false) ∧
      ∃ g : Filter, g.render = (syncFilter scopeFilter mark).toList ∧
        (∀ g' : Filter, g'.render = (syncFilter scopeFilter mark).toList → g' = g) ∧
        ∀ e, d.Selects g e ↔
          d.Selects f e ∧ ∃ ts, d.changed e = some ts ∧ mark/10^9*10^9 ≤ ts := by
  have htext : (Filter.all (.cons f (.one (.item (stampItem mark))))).render =
      (syncFilter scopeFilter mark).toList := by
    rw [syncFilter, if_neg hmark]
    simp [Filter.render, Filters.render, stampItem, hf]
  have hsame : stampItem mark = stampItem (mark/10^9*10^9) :=
    Subtype.ext (congrArg (fun cs => modifyAttr.toList ++ (['>', '='] ++ cs))
      (stampText_second mark).symm)
  have hsecond : FourDigitYear (mark/10^9*10^9) := by
    have hday : mark/10^9*10^9/(86400*10^9) = mark/(86400*10^9) := by lia
    rw [FourDigitYear, hday]
    exact hyear
  refine ⟨validateScopeFilter_render hf, _, htext, ?_, ?_⟩
  · intro g' hg'
    exact render_injective (hg'.trans htext.symm)
  · intro e
    rw [Directory.Selects, eval_all_two, Filter.eval, hsame, hd.ordered _ hsecond (by lia) e]
    rfl

section Samples

/-- Entries that are users or not, with the instants of their changes. -/
def staffDirectory : Directory (Bool × Option Time) where
  holds i e :=
    if i.1 = "objectClass=user".toList then some e.1
    else if (modifyAttr.toList ++ ['>', '=']).isPrefixOf i.1 then
      some (e.2.any fun ts => instant (i.1.filter Char.isDigit) ≤ ts)
    else none
  changed e := e.2

theorem staffDirectory_lawful : staffDirectory.Lawful where
  ordered := by
    intro t hyear hsecond e
    have hne : (stampItem t).1 ≠ "objectClass=user".toList := fun h =>
      absurd (List.cons.inj h).1 (by decide)
    have hprefix : (modifyAttr.toList ++ ['>', '=']).isPrefixOf (stampItem t).1 = true := by
      rw [List.isPrefixOf_iff_prefix]
      exact ⟨stampText t, List.append_assoc _ _ _⟩
    have hdigits : (stampItem t).1.filter Char.isDigit = (stampText t).filter Char.isDigit := by
      rw [stampItem, List.filter_append, List.filter_append]
      rfl
    have hholds : staffDirectory.holds (stampItem t) e = some (e.2.any fun ts => t ≤ ts) := by
      simp only [staffDirectory]
      rw [if_neg hne, if_pos hprefix, hdigits, instant_stampText hyear hsecond]
    have hany : ∀ changed : Option Time, changed.any (fun ts => t ≤ ts) = true ↔
        ∃ ts, changed = some ts ∧ t ≤ ts := by
      intro changed
      cases changed with
      | none => simp
      | some ts => simp
    rw [hholds, Option.some_inj]
    exact hany e.2

def userItem : Item := ⟨"objectClass".toList ++ (['='] ++ "user".toList),
  .simple (by decide) (by decide) (by decide)⟩

theorem users_since_noon : validateScopeFilter "(objectClass=user)" = .ok () ∧
    ∃ g : Filter, g.render = (syncFilter "(objectClass=user)" noon).toList ∧
      ∀ e, staffDirectory.Selects g e ↔ e.1 = true ∧ ∃ ts, e.2 = some ts ∧ noon ≤ ts := by
  have hrender : (Filter.item userItem).render = "(objectClass=user)".toList := rfl
  have hmark : noon ≠ Time.zero := by decide
  have hyear : FourDigitYear noon := by
    unfold FourDigitYear
    decide +kernel
  obtain ⟨haccepted, g, hg, -, hselects⟩ :=
    incremental_filter_exact staffDirectory_lawful hrender hmark hyear
  refine ⟨haccepted.mpr (by decide), g, hg, ?_⟩
  intro e
  rw [hselects e]
  refine and_congr ?_ ?_
  · have hholds : staffDirectory.holds userItem e = some e.1 := by
      simp only [staffDirectory]
      exact if_pos rfl
    rw [Directory.Selects, Filter.eval, hholds]
    exact Option.some_inj
  · exact Iff.rfl

/-- A filter without parentheses is accepted, and no filter that is composed of it is well formed. -/
theorem bare_filter_malformed :
    validateScopeFilter "objectClass=person" = .ok () ∧
      ∀ g : Filter, g.render ≠ (syncFilter "objectClass=person" noon).toList := by
  refine ⟨by decide, ?_⟩
  intro g hg
  have htext : (syncFilter "objectClass=person" noon).toList =
      '(' :: '&' :: 'o' :: "bjectClass=person(modifyTimestamp>=20260723120000Z))".toList := by
    decide +kernel
  rw [htext] at hg
  cases g with
  | item i => exact item_render_ne i (Or.inl rfl) _ [] ((List.append_nil _).trans hg)
  | not f => simp [Filter.render] at hg
  | any fs => simp [Filter.render] at hg
  | all fs =>
    obtain ⟨cs, hcs⟩ := fs.render_head
    rw [Filter.render, hcs] at hg
    simp at hg

end Samples

end ArchGuard.Ldap
