import ArchGuard.AuthzRebuilt
import ArchGuard.AuthzTenant
import Mathlib.Data.List.Infix

/-! The reverse query and the review of an asset against the check: they list what the check
allows, up to the instant that they evaluate at. -/
namespace ArchGuard.Authz

section Graphs

variable {g : GraphReader} {ctx : CheckContext} {object relation user : String} {at' : Time}

theorem resolverHolds_related (h : resolverHolds g object relation user at' = true) :
    Related g ⟨at'⟩ user object relation := by
  unfold resolverHolds at h
  split at h
  · rename_i d hd
    exact (evaluate_ok_iff hd).mp h
  · cases h

theorem evaluate_of_resolve {why : String}
    (h : resolve g ctx user maxResolveDepth [] object relation = .ok (true, why)) :
    evaluate g object relation user ctx = .ok ⟨true, why⟩ := by
  rw [evaluate, h]

theorem object_of_related (h : Related g ctx user object relation) :
    ∃ r, ∃ sub, sub ∈ g object r := by
  apply Related.node_induction (P := fun goal => ∃ r, ∃ sub, sub ∈ g goal.1 r) ?_ h
  intro o r
  constructor
  · exact fun _ sub hsub _ _ => ⟨r, sub, hsub⟩
  · exact fun _ hP => hP
  · exact fun tupleset _ sub hsub _ _ => ⟨tupleset, sub, hsub⟩

/-- And through a tuple of his own. -/
theorem user_of_related (h : Related g ctx user object relation) :
    ∃ o r, ∃ sub ∈ g o r, sub.ref = user := by
  apply Related.node_induction (P := fun _ => ∃ o r, ∃ sub ∈ g o r, sub.ref = user) ?_ h
  intro o r
  constructor
  · intro _ sub hsub _ hleaf
    rcases hleaf with ⟨_, -, hP⟩ | ⟨-, huser⟩
    · exact hP
    · exact ⟨o, r, sub, hsub, huser⟩
  · exact fun _ hP => hP
  · exact fun _ _ _ _ _ hP => hP

end Graphs

/-- A store that was written through the checks of `Enqueue` and `Write`; a `text` column holds no
nul character. -/
structure TupleStore where
  rows : List StoredTuple
  valid : ∀ x ∈ rows, validateTuple x.tuple = .ok ()
  text : ∀ x ∈ rows, '\x00' ∉ x.tuple.object.toList ∧ '\x00' ∉ x.tuple.relation.toList

section Tenant

variable (column : String → Option Uuid) (store : TupleStore)

def TupleStore.rowsOf (ref : String) : List StoredTuple :=
  match (refOrg ref).bind column with
  | some id => store.rows.filter fun x => x.row.organizationId = id
  | none => []

def TupleStore.graphOf (ref : String) : GraphReader := Authz.graphOf (store.rowsOf column ref)

/-- `Check` allows. -/
def Allows (t : RelationTuple) (at' : Time) : Prop :=
  ∃ d, check column store.rows ⟨t, ⟨at'⟩⟩ = .ok d ∧ d.allowed = true

/-- The resolver decides the same at the instant as at `time.Time{}`, at which the listings
evaluate. -/
def DecidesAlike (ref : String) (t : RelationTuple) (at' : Time) : Prop :=
  resolverHolds (store.graphOf column ref) t.object t.relation t.user at' =
    resolverHolds (store.graphOf column ref) t.object t.relation t.user Time.zero

variable {column store} {object relation user ref : String} {at' : Time}

theorem mem_rowsOf {x : StoredTuple} (h : x ∈ store.rowsOf column ref) : x ∈ store.rows := by
  unfold TupleStore.rowsOf at h
  split at h
  · exact (List.mem_filter.mp h).1
  · cases h

theorem rowsOf_congr {ref' : String} (h : refOrg ref = refOrg ref') :
    store.rowsOf column ref = store.rowsOf column ref' := by
  unfold TupleStore.rowsOf
  rw [h]

theorem row_of_sub {sub : GraphSubject} (h : sub ∈ store.graphOf column ref object relation) :
    ∃ x ∈ store.rowsOf column ref, x.tuple.object = object ∧ x.tuple.relation = relation ∧
      x.tuple.user = sub.ref := by
  obtain ⟨x, hx, hkey, rfl⟩ := mem_graphOf.mp h
  obtain ⟨hobject, hrelation⟩ := store.text x (mem_rowsOf hx)
  obtain ⟨ho, hr⟩ := (memKey_eq_iff hobject hrelation).mp hkey.symm
  exact ⟨x, hx, ho.symm, hr.symm, rfl⟩

theorem validated_graphOf : Validated (store.graphOf column ref) := by
  intro object relation sub hsub
  obtain ⟨x, hx, rfl, rfl, hx'⟩ := row_of_sub hsub
  rw [← hx']
  exact store.valid x (mem_rowsOf hx)

theorem sameTenant_of_resolver
    (h : resolverHolds (store.graphOf column ref) object relation user at' = true) :
    sameTenant user object = true := by
  unfold resolverHolds at h
  split at h
  · rename_i d hd
    exact evaluate_sameTenant validated_graphOf hd h
  · cases h

theorem resolverHolds_iff {g : GraphReader} : resolverHolds g object relation user at' = true ↔
    ∃ d, evaluate g object relation user ⟨at'⟩ = .ok d ∧ d.allowed = true := by
  unfold resolverHolds
  cases evaluate g object relation user ⟨at'⟩ with
  | error err => simp
  | ok d => simp

theorem decidesAlike_of_holderFree (hg : HolderFree (store.graphOf column ref))
    (hlasting : Lasting relation) : DecidesAlike column store ref ⟨user, relation, object⟩ at' := by
  rw [DecidesAlike, resolverHolds, resolverHolds, evaluate_lasting hg ⟨at'⟩ ⟨Time.zero⟩ hlasting]

theorem resolverHolds_empty {g : GraphReader} {d : Decision}
    (h : evaluate g object relation user .empty = .ok d) :
    resolverHolds g object relation user Time.zero = d.allowed := by
  have hzero : evaluate g object relation user ⟨Time.zero⟩ = .ok d := h
  rw [resolverHolds, hzero]

theorem tenantRows_eq_ok {org : String} {rows : List StoredTuple} (horg : refOrg ref = some org)
    (h : tenantRows column store.rows org = .ok rows) : rows = store.rowsOf column ref := by
  unfold tenantRows at h
  split at h
  · cases h
  · rename_i id hid
    rw [← Except.ok.inj h, TupleStore.rowsOf, horg, Option.bind_some, hid]

theorem graphOf_rowsOf : Authz.graphOf (store.rowsOf column ref) = store.graphOf column ref := rfl

theorem allows_iff (hrelation : relation ≠ "") (htenant : sameTenant user object = true) :
    Allows column store ⟨user, relation, object⟩ at' ↔
      resolverHolds (store.graphOf column user) object relation user at' = true := by
  obtain ⟨org, huser, hobject⟩ := sameTenant_iff.mp htenant
  unfold Allows
  cases hcolumn : column org with
  | none =>
    -- no rows are read, and nobody has a relation without them
    constructor
    · rintro ⟨d, hd, -⟩
      rw [check_of_tenant (t := ⟨user, relation, object⟩) hrelation huser hobject, tenantRows,
        hcolumn] at hd
      cases hd
    · intro hholds
      obtain ⟨r, sub, hsub⟩ := object_of_related (resolverHolds_related hholds)
      obtain ⟨x, hx, -⟩ := row_of_sub hsub
      simp only [TupleStore.rowsOf, huser, Option.bind_some, hcolumn] at hx
      cases hx
  | some id =>
    have hgraph : store.graphOf column user =
        Authz.graphOf (store.rows.filter fun x => x.row.organizationId = id) := by
      simp only [TupleStore.graphOf, TupleStore.rowsOf, huser, Option.bind_some, hcolumn]
    rw [check_of_column (t := ⟨user, relation, object⟩) hrelation huser hobject hcolumn, hgraph,
      resolverHolds_iff]
    apply exists_congr
    intro d
    apply and_congr_left
    intro _
    exact mapError_eq_ok

theorem sameTenant_of_allows {t : RelationTuple} (h : Allows column store t at') :
    sameTenant t.user t.object = true := by
  obtain ⟨d, hd, hallowed⟩ := h
  have hdenied {text : String} (heq : Except.ok (ε := PdpError) (⟨false, text⟩ : Decision) = .ok d) :
      False := by
    rw [← Except.ok.inj heq] at hallowed
    cases hallowed
  by_contra hcross
  have hguard : ∃ err, guardSameTenant t.user t.object = .error err := by
    unfold guardSameTenant
    split_ifs with hqualified htenant
    · exact ⟨_, rfl⟩
    · exact ⟨_, rfl⟩
    · exact absurd (by simpa using htenant) hcross
  obtain ⟨err, herr⟩ := hguard
  unfold check at hd
  rw [herr] at hd
  split_ifs at hd
  · exact hdenied hd
  · exact hdenied hd

end Tenant

section Listing

variable {column : String → Option Uuid} {store : TupleStore} {at' : Time}

/-- The objects of the type that is asked for, as the query reads it. -/
def OfType (type object : String) : Prop := like (type ++ ":%") object = true

theorem mem_kept_cons {holds : String → Bool} {candidates kept : List String} (c : String)
    (hkept : ∀ o, o ∈ kept ↔ o ∈ candidates ∧ holds o = true) (o : String) :
    o ∈ (if holds c then c :: kept else kept) ↔ o ∈ c :: candidates ∧ holds o = true := by
  cases hc : holds c with
  | true =>
    simp only [↓reduceIte, List.mem_cons, hkept]
    constructor
    · rintro (rfl | ⟨hmem, ho⟩)
      · exact ⟨Or.inl rfl, hc⟩
      · exact ⟨Or.inr hmem, ho⟩
    · rintro ⟨rfl | hmem, ho⟩
      · exact Or.inl rfl
      · exact Or.inr ⟨hmem, ho⟩
  | false =>
    simp only [Bool.false_eq_true, ↓reduceIte, List.mem_cons, hkept]
    constructor
    · exact fun ⟨hmem, ho⟩ => ⟨Or.inr hmem, ho⟩
    · rintro ⟨rfl | hmem, ho⟩
      · rw [hc] at ho
        cases ho
      · exact ⟨hmem, ho⟩

theorem allowedObjects_mem {g : GraphReader} {relation user : String} {candidates out : List String}
    (h : allowedObjects g relation user candidates = .ok out) (o : String) :
    o ∈ out ↔ o ∈ candidates ∧ resolverHolds g o relation user Time.zero = true := by
  induction candidates generalizing out o with
  | nil =>
    obtain rfl := Except.ok.inj h
    simp
  | cons obj objs ih =>
    rw [allowedObjects] at h
    cases hd : evaluate g obj relation user .empty with
    | error err =>
      rw [hd] at h
      cases h
    | ok d =>
      rw [hd] at h
      obtain ⟨rest, hrest, hout⟩ := bind_eq_ok.mp h
      obtain rfl := Except.ok.inj hout
      rw [← resolverHolds_empty hd]
      exact mem_kept_cons obj (fun o => ih hrest o) o

/-- What a reverse query lists: every object of the type that the resolver allows at the instant
at which the listings evaluate. -/
theorem mem_listObjects {req : ListObjectsRequest} {out : List String}
    (h : listObjects column store.rows req = .ok out) (o : String) :
    o ∈ out ↔ OfType req.type o ∧
      resolverHolds (store.graphOf column req.user) o req.relation req.user Time.zero = true := by
  unfold listObjects at h
  split_ifs at h
  split at h
  · cases h
  · rename_i org horg
    obtain ⟨rows, hrows, hout⟩ := bind_eq_ok.mp h
    obtain rfl := tenantRows_eq_ok horg hrows
    rw [allowedObjects_mem hout, graphOf_rowsOf]
    apply and_congr_left
    intro hholds
    rw [objectsOfType, List.mem_dedup, List.mem_filter]
    constructor
    · exact fun hmem => hmem.2
    · intro htype
      -- an object that the resolver allows has a tuple, and so it is a candidate
      obtain ⟨r, sub, hsub⟩ := object_of_related (resolverHolds_related hholds)
      obtain ⟨x, hx, hobject, -⟩ := row_of_sub hsub
      exact ⟨List.mem_map.mpr ⟨x, hx, hobject⟩, htype⟩

theorem reviewAssetAccess_mem {g : GraphReader} {asset : String} {candidates : List String}
    {entries : List AccessReviewEntry} (h : reviewAssetAccess g asset .empty candidates = .ok entries)
    (m : String) : m ∈ entries.map AccessReviewEntry.subject ↔
      m ∈ candidates ∧ resolverHolds g asset relCanOpenSession m Time.zero = true := by
  induction candidates generalizing entries m with
  | nil =>
    obtain rfl := Except.ok.inj h
    simp
  | cons subject subjects ih =>
    rw [reviewAssetAccess] at h
    obtain ⟨base, hbase, h⟩ := bind_eq_ok.mp h
    have hholds := resolverHolds_empty hbase
    cases hallowed : base.allowed with
    | false =>
      rw [hallowed] at h hholds
      have hkept := mem_kept_cons subject (fun m => ih h m) m
      rwa [hholds, if_neg Bool.false_ne_true] at hkept
    | true =>
      rw [hallowed] at h hholds
      obtain ⟨grant, -, h⟩ := bind_eq_ok.mp h
      obtain ⟨rest, hrest, h⟩ := bind_eq_ok.mp h
      obtain rfl := Except.ok.inj h
      have hkept := mem_kept_cons subject (fun m => ih hrest m) m
      rwa [hholds, if_pos rfl] at hkept

/-- The membership references of the tenant of a reference, as the query reads them. -/
def MembershipOf (ref m : String) : Prop :=
  ∃ org, refOrg ref = some org ∧ like (membershipPattern org) m = true

/-- Whom a review lists: every membership of the tenant that may open a session, at the instant at
which the listings evaluate. -/
theorem mem_reviewAsset {asset : String} {entries : List AccessReviewEntry}
    (h : reviewAsset column store.rows asset = .ok entries) (m : String) :
    m ∈ entries.map AccessReviewEntry.subject ↔ MembershipOf asset m ∧
      resolverHolds (store.graphOf column asset) asset relCanOpenSession m Time.zero = true := by
  unfold reviewAsset at h
  split at h
  · cases h
  · rename_i org horg
    obtain ⟨rows, hrows, hout⟩ := bind_eq_ok.mp h
    obtain rfl := tenantRows_eq_ok horg hrows
    rw [reviewAssetAccess_mem (mapError_eq_ok.mp hout), graphOf_rowsOf]
    apply and_congr_left
    intro hholds
    rw [membershipCandidates, List.mem_dedup, List.mem_filter]
    constructor
    · exact fun hmem => ⟨org, horg, hmem.2⟩
    · rintro ⟨org', horg', hlike⟩
      rw [horg] at horg'
      obtain rfl := Option.some.inj horg'
      -- a membership that the resolver allows is the user of a tuple
      obtain ⟨o, r, sub, hsub, huser⟩ := user_of_related (resolverHolds_related hholds)
      obtain ⟨x, hx, -, -, hx'⟩ := row_of_sub hsub
      exact ⟨List.mem_map.mpr ⟨x, hx, hx'.trans huser⟩, hlike⟩

theorem allows_iff_user {object relation user : String} (hrelation : relation ≠ "") :
    Allows column store ⟨user, relation, object⟩ at' ↔
      resolverHolds (store.graphOf column user) object relation user at' = true := by
  constructor
  · intro h
    exact (allows_iff hrelation (sameTenant_of_allows h)).mp h
  · intro h
    exact (allows_iff hrelation (sameTenant_of_resolver h)).mpr h

theorem allows_iff_object {object relation user : String} (hrelation : relation ≠ "") :
    Allows column store ⟨user, relation, object⟩ at' ↔
      resolverHolds (store.graphOf column object) object relation user at' = true := by
  have hgraph (h : sameTenant user object = true) :
      store.graphOf column object = store.graphOf column user := by
    obtain ⟨org, huser, hobject⟩ := sameTenant_iff.mp h
    rw [TupleStore.graphOf, TupleStore.graphOf, rowsOf_congr (hobject.trans huser.symm)]
  constructor
  · intro h
    rw [hgraph (sameTenant_of_allows h)]
    exact allows_iff_user hrelation |>.mp h
  · intro h
    have htenant := sameTenant_of_resolver h
    rw [hgraph htenant] at h
    exact (allows_iff hrelation htenant).mpr h

/-- A list of what is decided positively at one time is the list for another time exactly when
both times decide alike. -/
theorem listed_iff {K L A : String → Prop} {now listed : String → Bool}
    (hL : ∀ x, L x ↔ K x ∧ listed x = true) (hA : ∀ x, A x ↔ now x = true) :
    (∀ x, L x ↔ K x ∧ A x) ↔ ∀ x, K x → now x = listed x := by
  constructor
  · intro h x hK
    rw [Bool.eq_iff_iff, ← hA]
    constructor
    · intro hnow
      exact ((hL x).mp ((h x).mpr ⟨hK, hnow⟩)).2
    · intro hlisted
      exact ((h x).mp ((hL x).mpr ⟨hK, hlisted⟩)).2
  · intro h x
    rw [hL, hA]
    apply and_congr_right
    intro hK
    rw [h x hK]

theorem reviewed_iff {asset : String} {entries : List AccessReviewEntry}
    (hreview : reviewAsset column store.rows asset = .ok entries) (at' : Time) :
    (∀ m, m ∈ entries.map AccessReviewEntry.subject ↔
        MembershipOf asset m ∧ Allows column store ⟨m, relCanOpenSession, asset⟩ at') ↔
      ∀ m, MembershipOf asset m →
        DecidesAlike column store asset ⟨m, relCanOpenSession, asset⟩ at' :=
  listed_iff (mem_reviewAsset hreview) fun _ => allows_iff_object (by decide)

/-- The reverse query and the review return exactly what the check allows at an instant, exactly
when the resolver decides then as at `time.Time{}`: for the review always, unless a userset stands
for who holds a grant. -/
theorem listings_agree_iff {req : ListObjectsRequest} {out : List String} {asset : String}
    {entries : List AccessReviewEntry} (at' : Time)
    (hlist : listObjects column store.rows req = .ok out)
    (hreview : reviewAsset column store.rows asset = .ok entries) :
    ((∀ o, o ∈ out ↔ OfType req.type o ∧ Allows column store ⟨req.user, req.relation, o⟩ at') ↔
      ∀ o, OfType req.type o →
        DecidesAlike column store req.user ⟨req.user, req.relation, o⟩ at') ∧
    ((∀ m, m ∈ entries.map AccessReviewEntry.subject ↔
        MembershipOf asset m ∧ Allows column store ⟨m, relCanOpenSession, asset⟩ at') ↔
      ∀ m, MembershipOf asset m →
        DecidesAlike column store asset ⟨m, relCanOpenSession, asset⟩ at') ∧
    (HolderFree (store.graphOf column asset) → ∀ m, m ∈ entries.map AccessReviewEntry.subject ↔
      MembershipOf asset m ∧ Allows column store ⟨m, relCanOpenSession, asset⟩ at') := by
  have hrelation : req.relation ≠ "" := by
    intro hempty
    unfold listObjects ListObjectsRequest.valid at hlist
    simp [hempty] at hlist
  have hreviewed := reviewed_iff hreview at'
  refine ⟨listed_iff (mem_listObjects hlist) fun _ => allows_iff_user hrelation, hreviewed, ?_⟩
  exact fun hfree => hreviewed.mpr fun _ _ => decidesAlike_of_holderFree hfree (by decide)

end Listing

namespace Sample

def tenant : String := "org:00000000-0000-0000-0000-000000000001/"

def reviewedMember : String := tenant ++ "membership:3"

def reviewedAsset : String := tenant ++ "asset:7"

/-- An operator by group and parent, and a grant on the same asset. -/
def reviewedTuples : List StoredTuple := [
  ⟨⟨tenant ++ "asset_group:4", relParent, reviewedAsset⟩, 1, none⟩,
  ⟨⟨tenant ++ "group:8#member", relOperator, tenant ++ "asset_group:4"⟩, 1, none⟩,
  ⟨⟨reviewedMember, relMember, tenant ++ "group:8"⟩, 1, none⟩,
  ⟨⟨reviewedMember, relHasActiveGrant, reviewedAsset⟩, 1, some ⟨conditionValidWindow, openWindow⟩⟩]

theorem reviewedTuples_valid : ∀ x ∈ reviewedTuples, validateTuple x.tuple = .ok () := by
  decide +kernel

theorem reviewedTuples_text : ∀ x ∈ reviewedTuples,
    '\x00' ∉ x.tuple.object.toList ∧ '\x00' ∉ x.tuple.relation.toList := by
  decide +kernel

def reviewed : TupleStore := ⟨reviewedTuples, reviewedTuples_valid, reviewedTuples_text⟩

def assetsOf (relation : String) : ListObjectsRequest :=
  ⟨reviewedMember, relation, tenant ++ "asset"⟩

/-- Its one userset stands for the members of a group. -/
theorem reviewed_holderFree : HolderFree (reviewed.graphOf Uuid.ofText reviewedAsset) := by
  intro o r sub hsub goal hsplit
  obtain ⟨x, hx, -, -, hx'⟩ := row_of_sub hsub
  have hlasting : ∀ x ∈ reviewedTuples, ∀ goal ∈ splitUserset x.tuple.user, Lasting goal.2 := by
    decide +kernel
  exact hlasting x (mem_rowsOf hx) goal (hx' ▸ hsplit)

end Sample

theorem listings_agree_reviewed :
    ((∀ o, o ∈ [Sample.reviewedAsset] ↔ OfType (Sample.assetsOf relOperator).type o ∧
      Allows Uuid.ofText Sample.reviewed ⟨Sample.reviewedMember, relOperator, o⟩ 2000000) ↔
    ∀ o, OfType (Sample.assetsOf relOperator).type o → DecidesAlike Uuid.ofText Sample.reviewed
      Sample.reviewedMember ⟨Sample.reviewedMember, relOperator, o⟩ 2000000) ∧
    ∀ m, m ∈ [Sample.reviewedMember] ↔ MembershipOf Sample.reviewedAsset m ∧
      Allows Uuid.ofText Sample.reviewed ⟨m, relCanOpenSession, Sample.reviewedAsset⟩ 2000000 := by
  have hlist : listObjects Uuid.ofText Sample.reviewed.rows (Sample.assetsOf relOperator) =
      .ok [Sample.reviewedAsset] := by decide +kernel
  have hreview : reviewAsset Uuid.ofText Sample.reviewed.rows Sample.reviewedAsset =
      .ok [⟨Sample.reviewedMember, [.inherited],
        "can_open_session via operator from parent " ++ Sample.tenant ++ "asset_group:4"⟩] := by
    decide +kernel
  have h := listings_agree_iff 2000000 hlist hreview
  exact ⟨h.1, h.2.2 Sample.reviewed_holderFree⟩

/-- A grant that is open is not listed. -/
theorem open_grant_not_listed : ¬∀ (store : TupleStore) (req : ListObjectsRequest)
    (out : List String) (at' : Time), listObjects Uuid.ofText store.rows req = .ok out →
      ∀ o, o ∈ out ↔ OfType req.type o ∧
        Allows Uuid.ofText store ⟨req.user, req.relation, o⟩ at' := by
  intro h
  have hlist : listObjects Uuid.ofText Sample.reviewed.rows (Sample.assetsOf relHasActiveGrant) =
      .ok [] := by decide +kernel
  have hallows : Allows Uuid.ofText Sample.reviewed
      ⟨Sample.reviewedMember, relHasActiveGrant, Sample.reviewedAsset⟩ 2000000 := by
    refine ⟨⟨true, "has_active_grant direto"⟩, ?_, rfl⟩
    decide +kernel
  have htype : OfType (Sample.assetsOf relHasActiveGrant).type Sample.reviewedAsset := by
    unfold OfType
    decide +kernel
  exact List.not_mem_nil ((h Sample.reviewed _ _ 2000000 hlist Sample.reviewedAsset).mpr
    ⟨htype, hallows⟩)

end ArchGuard.Authz
