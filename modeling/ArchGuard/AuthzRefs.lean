import ArchGuard.AuthzModel
import ArchGuard.UuidText
import Mathlib.Data.List.TakeWhile

/-! The references that `Qualify` builds from UUIDs: they are read back, they name their
organization and their type, and different objects have different ones. -/
namespace ArchGuard.Authz

/-- A text without the characters that references are put together with. -/
def Plain (chars : List Char) : Prop := ∀ c ∈ chars, c ≠ '#' ∧ c ≠ '/' ∧ c ≠ ':' ∧ c ≠ '\x00'

theorem hexDigit_plain (n : ℕ) (h : n < 16) :
    hexDigit n ≠ '#' ∧ hexDigit n ≠ '/' ∧ hexDigit n ≠ ':' ∧ hexDigit n ≠ '\x00' := by
  interval_cases n <;> decide

theorem mem_text {u : Uuid} {c : Char} (hc : c ∈ u.text.toList) :
    c = '-' ∨ ∃ n < 16, c = hexDigit n := by
  by_cases hdash : c = '-'
  · exact Or.inl hdash
  · have hmem : c ∈ u.text.toList.filter (· ≠ '-') := List.mem_filter.mpr ⟨hc, by simpa using hdash⟩
    rw [toList_text] at hmem
    obtain ⟨i, -, rfl⟩ := List.mem_map.mp hmem
    exact Or.inr ⟨_, Nat.mod_lt _ (by norm_num), rfl⟩

theorem plain_text (u : Uuid) : Plain u.text.toList := by
  intro c hc
  rcases mem_text hc with rfl | ⟨n, hn, rfl⟩
  · decide
  · exact hexDigit_plain n hn

theorem text_ne_nil (u : Uuid) : u.text.toList ≠ [] := by
  intro h
  have hlen := congrArg List.length (toList_text u)
  rw [h] at hlen
  simp at hlen

theorem plain_type (t : ObjectType) : Plain t.text.toList := by
  have hall : t.text.toList.all (fun c => c ≠ '#' ∧ c ≠ '/' ∧ c ≠ ':' ∧ c ≠ '\x00') = true := by
    cases t <;> decide
  intro c hc
  exact of_decide_eq_true (List.all_eq_true.mp hall c hc)

theorem type_no_colon (t : ObjectType) : ∀ c ∈ t.text.toList, decide (c ≠ ':') = true := by
  intro c hc
  exact decide_eq_true (plain_type t c hc).2.2.1

theorem takeWhile_append_cons {p : Char → Bool} {xs ys : List Char} {y : Char}
    (hxs : ∀ x ∈ xs, p x = true) (hy : p y = false) :
    (xs ++ y :: ys).takeWhile p = xs := by
  rw [List.takeWhile_append_of_pos hxs, List.takeWhile_cons_of_neg (by simp [hy]), List.append_nil]

theorem takeWhile_all {p : Char → Bool} {xs : List Char} (hxs : ∀ x ∈ xs, p x = true) :
    xs.takeWhile p = xs := by
  rw [List.takeWhile_eq_self_iff]
  exact hxs

/-- What `refType` looks at: the characters behind the last slash. -/
def lastSegment (cs : List Char) : List Char := (cs.reverse.takeWhile (· ≠ '/')).reverse

theorem lastSegment_append_cons {xs ys : List Char} (h : '/' ∉ ys) :
    lastSegment (xs ++ '/' :: ys) = ys := by
  rw [lastSegment, List.reverse_append, List.reverse_cons, List.append_assoc, List.singleton_append,
    takeWhile_append_cons, List.reverse_reverse]
  · intro c hc
    have hne : c ≠ '/' := by
      rintro rfl
      exact h (List.mem_reverse.mp hc)
    simpa using hne
  · decide

theorem exists_lastSegment {cs : List Char} (h : '/' ∈ cs) :
    ∃ front, cs = front ++ '/' :: lastSegment cs ∧ '/' ∉ lastSegment cs := by
  obtain ⟨back, front, hcut, hnot⟩ := List.eq_append_cons_of_mem (List.mem_reverse.mpr h)
  have hcs : cs = front.reverse ++ '/' :: back.reverse := by
    rw [← List.reverse_inj, hcut]
    simp
  have hback : '/' ∉ back.reverse := fun hm => hnot (List.mem_reverse.mp hm)
  have hlast : lastSegment cs = back.reverse := by
    rw [hcs]
    exact lastSegment_append_cons hback
  exact ⟨front.reverse, hlast ▸ hcs, hlast ▸ hback⟩

section Texts

variable {org : Uuid} {typ : ObjectType} {id : String}

theorem toList_qualify (org : Uuid) (typ : ObjectType) (s : String) : (qualify org typ s).toList =
    orgPrefix ++ (org.text.toList ++ '/' :: (typ.text.toList ++ ':' :: s.toList)) := by
  simp only [qualify, String.toList_append, orgPrefix, List.append_assoc]
  rfl

theorem toList_hash_iff : '#' ∈ (qualify org typ id).toList ↔ '#' ∈ id.toList := by
  rw [toList_qualify]
  simp only [List.mem_append, List.mem_cons]
  constructor
  · rintro (h | h | h | h | h | h)
    · exact absurd h (by decide)
    · exact absurd rfl (plain_text org _ h).1
    · exact absurd h (by decide)
    · exact absurd rfl (plain_type typ _ h).1
    · exact absurd h (by decide)
    · exact h
  · exact fun h => Or.inr (Or.inr (Or.inr (Or.inr (Or.inr h))))

theorem toList_qualifyUserset (relation : String) : (qualifyUserset org typ id relation).toList =
    (qualify org typ id).toList ++ '#' :: relation.toList := by
  simp only [qualifyUserset, String.toList_append, List.append_assoc]
  rfl

theorem stripUserset_qualify_text (h : '#' ∉ id.toList) :
    stripUserset (qualify org typ id) = (qualify org typ id).toList := by
  apply takeWhile_all
  intro c hc
  have hne : c ≠ '#' := by
    rintro rfl
    exact h (toList_hash_iff.mp hc)
  simpa using hne

theorem stripUserset_qualifyUserset (h : '#' ∉ id.toList) (relation : String) :
    stripUserset (qualifyUserset org typ id relation) = (qualify org typ id).toList := by
  rw [stripUserset, toList_qualifyUserset]
  apply takeWhile_append_cons
  · intro c hc
    have hne : c ≠ '#' := by
      rintro rfl
      exact h (toList_hash_iff.mp hc)
    simpa using hne
  · decide

theorem lastSegment_qualify : lastSegment (qualify org typ id).toList =
    if '/' ∈ id.toList then lastSegment id.toList else typ.text.toList ++ ':' :: id.toList := by
  rw [toList_qualify, ← List.append_assoc]
  split_ifs with h
  · obtain ⟨front, hcut, hnot⟩ := exists_lastSegment h
    have hmoved : (orgPrefix ++ org.text.toList) ++ '/' :: (typ.text.toList ++ ':' :: id.toList) =
        ((orgPrefix ++ org.text.toList) ++ '/' :: (typ.text.toList ++ ':' :: front)) ++
          '/' :: lastSegment id.toList := by
      conv_lhs => rw [hcut]
      simp only [List.append_assoc, List.cons_append]
    rw [hmoved, lastSegment_append_cons hnot]
  · apply lastSegment_append_cons
    intro hm
    rcases List.mem_append.mp hm with hm | hm
    · exact (plain_type typ _ hm).2.1 rfl
    · exact h ((List.mem_cons.mp hm).resolve_left (by decide))

/-- What the id has behind its last slash names the type once more. -/
def NamesType (typ : ObjectType) (id : String) : Prop :=
  ∃ front tail, id.toList = front ++ '/' :: (typ.text.toList ++ tail) ∧ '/' ∉ tail ∧
    (tail = [] ∨ ∃ rest, tail = ':' :: rest)

theorem namesType_iff (h : '/' ∈ id.toList) :
    (lastSegment id.toList).takeWhile (· ≠ ':') = typ.text.toList ↔ NamesType typ id := by
  constructor
  · intro htype
    obtain ⟨front, hcut, hnot⟩ := exists_lastSegment h
    have hsplit := List.takeWhile_append_dropWhile (p := (· ≠ ':')) (l := lastSegment id.toList)
    rw [htype] at hsplit
    refine ⟨front, (lastSegment id.toList).dropWhile (· ≠ ':'), hsplit.symm ▸ hcut, ?_, ?_⟩
    · intro hm
      exact hnot (hsplit ▸ List.mem_append_right _ hm)
    · cases htail : (lastSegment id.toList).dropWhile (· ≠ ':') with
      | nil => exact Or.inl rfl
      | cons c rest =>
        have hhead := List.head?_dropWhile_not (fun c : Char => decide (c ≠ ':')) (lastSegment id.toList)
        rw [htail] at hhead
        have hc : c = ':' := by simpa using hhead
        exact Or.inr ⟨rest, by rw [hc]⟩
  · rintro ⟨front, tail, hid, htail, hstop⟩
    have hnot : '/' ∉ typ.text.toList ++ tail := by
      intro hm
      rcases List.mem_append.mp hm with hm | hm
      · exact (plain_type typ _ hm).2.1 rfl
      · exact htail hm
    rw [hid, lastSegment_append_cons hnot]
    rcases hstop with rfl | ⟨rest, rfl⟩
    · rw [List.append_nil, takeWhile_all (type_no_colon typ)]
    · exact takeWhile_append_cons (type_no_colon typ) (by decide)

theorem refType_qualify_iff (h : '#' ∉ id.toList) :
    refType (qualify org typ id) = typ.text ↔ ('/' ∈ id.toList → NamesType typ id) := by
  have htype : refType (qualify org typ id) = typ.text ↔
      (lastSegment (qualify org typ id).toList).takeWhile (· ≠ ':') = typ.text.toList := by
    rw [← String.toList_inj, refType, stripUserset_qualify_text h, String.toList_ofList]
    rfl
  rw [htype, lastSegment_qualify]
  split_ifs with hslash
  · rw [namesType_iff hslash]
    exact ⟨fun hnames _ => hnames, fun hnames => hnames hslash⟩
  · exact ⟨fun _ hm => absurd hm hslash, fun _ => takeWhile_append_cons (type_no_colon typ) (by decide)⟩

theorem splitUserset_qualifyUserset (h : '#' ∉ id.toList) (relation : String) :
    splitUserset (qualifyUserset org typ id relation) = some (qualify org typ id, relation) := by
  have hnot : ∀ c ∈ (qualify org typ id).toList, decide (c ≠ '#') = true := by
    intro c hc
    apply decide_eq_true
    rintro rfl
    exact h (toList_hash_iff.mp hc)
  have hdrop : (qualifyUserset org typ id relation).toList.dropWhile (· ≠ '#') =
      '#' :: relation.toList := by
    rw [toList_qualifyUserset, List.dropWhile_append_of_pos hnot,
      List.dropWhile_cons_of_neg (by decide)]
  have hmem : '#' ∈ (qualifyUserset org typ id relation).toList := by
    rw [toList_qualifyUserset]
    exact List.mem_append_right _ List.mem_cons_self
  rw [splitUserset, if_pos hmem, stripUserset_qualifyUserset h, hdrop, String.ofList_toList,
    List.drop_succ_cons, List.drop_zero, String.ofList_toList]

theorem refOrg_of_prefix (org : Uuid) {ref : String} {rest : List Char}
    (h : stripUserset ref = orgPrefix ++ (org.text.toList ++ '/' :: rest)) :
    refOrg ref = some org.text := by
  have hrest : (stripUserset ref).drop orgPrefix.length = org.text.toList ++ '/' :: rest := by
    rw [h, List.drop_left]
  have hstart : orgPrefix.isPrefixOf (stripUserset ref) = true := by
    rw [h, List.isPrefixOf_iff_prefix]
    exact List.prefix_append _ _
  have horg : (org.text.toList ++ '/' :: rest).takeWhile (· ≠ '/') = org.text.toList := by
    apply takeWhile_append_cons
    · intro c hc
      simpa using (plain_text org c hc).2.1
    · decide
  unfold refOrg
  simp only [hstart, if_true, hrest, horg, List.mem_append, List.mem_cons, true_or, or_true,
    true_and, ne_eq, text_ne_nil org, not_false_eq_true, String.ofList_toList]

/-- Whatever text stands for the object, `Qualify` puts it into the organization. -/
theorem refOrg_qualify_text (org : Uuid) (typ : ObjectType) (s : String) : refOrg (qualify org typ s) = some org.text := by
  have hplain : ∀ c ∈ orgPrefix ++ (org.text.toList ++ '/' :: (typ.text.toList ++ [':'])),
      decide (c ≠ '#') = true := by
    intro c hc
    apply decide_eq_true
    rintro rfl
    simp only [List.mem_append, List.mem_cons, List.not_mem_nil, or_false] at hc
    rcases hc with hc | hc | hc | hc | hc
    · exact absurd hc (by decide)
    · exact (plain_text org _ hc).1 rfl
    · exact absurd hc (by decide)
    · exact (plain_type typ _ hc).1 rfl
    · exact absurd hc (by decide)
  have hlist : (qualify org typ s).toList =
      (orgPrefix ++ (org.text.toList ++ '/' :: (typ.text.toList ++ [':']))) ++ s.toList := by
    rw [toList_qualify]
    simp only [List.append_assoc, List.cons_append, List.nil_append]
  have hstrip : stripUserset (qualify org typ s) = orgPrefix ++ (org.text.toList ++
      '/' :: (typ.text.toList ++ ':' :: s.toList.takeWhile (· ≠ '#'))) := by
    rw [stripUserset, hlist, List.takeWhile_append_of_pos hplain]
    simp only [List.append_assoc, List.cons_append, List.nil_append]
  exact refOrg_of_prefix org hstrip

/-- What the parsers make of a reference is what it was built from. -/
structure ParsesBack (org : Uuid) (typ : ObjectType) (id : String) : Prop where
  type : refType (qualify org typ id) = typ.text
  organization : refOrg (qualify org typ id) = some org.text
  concrete : splitUserset (qualify org typ id) = none
  userset : ∀ relation,
    splitUserset (qualifyUserset org typ id relation) = some (qualify org typ id, relation)

/-- The parsers undo `Qualify` exactly on ids without `#` whose last slash, if they have any, is
followed by the type again. -/
theorem parsesBack_iff (org : Uuid) (typ : ObjectType) (id : String) :
    ParsesBack org typ id ↔ '#' ∉ id.toList ∧ ('/' ∈ id.toList → NamesType typ id) := by
  constructor
  · intro h
    have hhash : '#' ∉ id.toList := by
      intro hm
      have hsplit := h.concrete
      rw [splitUserset, if_pos (toList_hash_iff.mpr hm)] at hsplit
      cases hsplit
    exact ⟨hhash, (refType_qualify_iff hhash).mp h.type⟩
  · rintro ⟨hhash, hslash⟩
    exact {
      type := (refType_qualify_iff hhash).mpr hslash
      organization := refOrg_qualify_text org typ id
      concrete := if_neg fun hm => hhash (toList_hash_iff.mp hm)
      userset := splitUserset_qualifyUserset hhash }

/-- An asset with a slash in its id is an object of another type. -/
theorem slash_mistyped : refType (qualify Uuid.nil .asset "srv/db1") = "db1" ∧
    ¬ ParsesBack Uuid.nil .asset "srv/db1" := by
  have htype : refType (qualify Uuid.nil .asset "srv/db1") = "db1" := by decide +kernel
  refine ⟨htype, fun h => ?_⟩
  exact absurd (htype.symm.trans h.type) (by decide)

end Texts

section Qualified

variable (org : Uuid) (typ : ObjectType) (id : Uuid)

theorem text_no_hash : '#' ∉ id.text.toList := fun h => (plain_text id _ h).1 rfl

theorem text_no_slash : '/' ∉ id.text.toList := fun h => (plain_text id _ h).2.1 rfl

theorem qualify_no_hash : '#' ∉ (qualify org typ id.text).toList :=
  fun h => text_no_hash id (toList_hash_iff.mp h)

theorem qualify_no_nul : '\x00' ∉ (qualify org typ id.text).toList := by
  rw [toList_qualify]
  simp only [List.mem_append, List.mem_cons, not_or]
  refine ⟨by decide, fun h => (plain_text org _ h).2.2.2 rfl, by decide,
    fun h => (plain_type typ _ h).2.2.2 rfl, by decide, fun h => (plain_text id _ h).2.2.2 rfl⟩

theorem stripUserset_qualify :
    stripUserset (qualify org typ id.text) = (qualify org typ id.text).toList :=
  stripUserset_qualify_text (text_no_hash id)

theorem stripUserset_userset (relation : String) :
    stripUserset (qualifyUserset org typ id.text relation) = (qualify org typ id.text).toList :=
  stripUserset_qualifyUserset (text_no_hash id) relation

theorem refOrg_of_strip {ref : String} (h : stripUserset ref = (qualify org typ id.text).toList) :
    refOrg ref = some org.text := by
  rw [toList_qualify] at h
  exact refOrg_of_prefix org h

theorem refOrg_qualify : refOrg (qualify org typ id.text) = some org.text :=
  refOrg_of_strip org typ id (stripUserset_qualify org typ id)

theorem refOrg_userset (relation : String) :
    refOrg (qualifyUserset org typ id.text relation) = some org.text :=
  refOrg_of_strip org typ id (stripUserset_userset org typ id relation)

theorem refType_qualify : refType (qualify org typ id.text) = typ.text :=
  (refType_qualify_iff (text_no_hash id)).mpr fun h => absurd h (text_no_slash id)

theorem splitUserset_qualify : splitUserset (qualify org typ id.text) = none :=
  if_neg (qualify_no_hash org typ id)

end Qualified

theorem qualify_inj {org : Uuid} {typ : ObjectType} {a b : String}
    (h : qualify org typ a = qualify org typ b) : a = b := by
  have hlist := congrArg String.toList h
  rw [toList_qualify, toList_qualify] at hlist
  exact String.toList_inj.mp (by simpa using hlist)

theorem ref_ne_empty {ref org : String} (h : refOrg ref = some org) : ref ≠ "" := by
  rintro rfl
  cases h

theorem validateTuple_ok {org : String} {t : RelationTuple} (huser : refOrg t.user = some org)
    (hobject : refOrg t.object = some org) (hrel : t.relation ≠ "") :
    validateTuple t = .ok () := by
  unfold validateTuple
  simp [RelationTuple.valid, ref_ne_empty huser, ref_ne_empty hobject, hrel, qualified, sameTenant, huser, hobject]

end ArchGuard.Authz
