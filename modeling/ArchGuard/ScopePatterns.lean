import ArchGuard.GoRegexp
import ArchGuard.ScopeFilter

/-! The scopes of a token request, given by name or as patterns over the names that the application
allows: what they expand to, and which patterns reach names that they do not match. -/
namespace ArchGuard.ScopePatterns
open GoText GoStrconv Regexp
open Ldap (isSpace)

-- The fields of a text.

/-- The runes of a string, each with its bytes. -/
def spansFrom : (skip : ℕ) → GoString → List (Rune × GoString)
  | _, [] => []
  | skip+1, _ :: s => spansFrom skip s
  | 0, b :: s =>
    match decodeRune (b :: s) with
    | some c => (.char c, String.utf8EncodeChar c) :: spansFrom (c.utf8Size-1) s
    | none => (.malformed, [b]) :: spansFrom 0 s

def spans (s : GoString) : List (Rune × GoString) := spansFrom 0 s

def isBlank : Rune → Bool
  | .char c => isSpace c
  | .malformed => false

def fields (s : GoString) : List GoString :=
  (((spans s).splitOnP (isBlank ·.1)).map (·.flatMap Prod.snd)).filter (· ≠ [])

def blank : UInt8 := 32

-- The expansion.

/-- `strings.ContainsAny` with the characters that are special in a pattern. -/
def isRegexScope (scope : GoString) : Bool :=
  scope.any (· ∈ utf8 ".*+?^$\x7b\x7d()|[]\\")

/-- A pattern between a caret and a dollar sign. -/
def anchored (s : GoString) : GoString := utf8 "^" ++ s ++ utf8 "$"

/-- What was seen is what stands in the list. -/
def appendUnseen (expanded : List GoString) (name : GoString) : List GoString :=
  if name ∈ expanded then expanded else expanded ++ [name]

variable (tb : Tables)

def expandField (allowedNames expanded : List GoString) (s : GoString) : Option (List GoString) :=
  if s ∈ allowedNames then some (appendUnseen expanded s)
  else if !isRegexScope s then none
  else
    (tb.compile (anchored s)).bind fun re =>
      let matching := allowedNames.filter (matchString re)
      if matching = [] then none else some (matching.foldl appendUnseen expanded)

def isScopeValidAndExpand (scope : GoString) (scopes : List GoString) : GoString × Bool :=
  if scopes = [] ∨ scope = [] then (scope, true)
  else
    match (fields scope).foldlM (expandField tb scopes) [] with
    | some expanded => (join blank expanded, true)
    | none => ([], false)

def isScopeValid (scope : GoString) (scopes : List GoString) : Bool :=
  (isScopeValidAndExpand tb scope scopes).2

/-- The name is the field, or the field matches it as a whole. -/
def Covers (s name : GoString) : Prop :=
  name = s ∨ ∃ p, tb.compile s = some p ∧ whole p.regex (codePoints name)

/-- The expansion stays within what was requested. -/
structure Sound (scope : GoString) (scopes : List GoString) (expansion : GoString) : Prop where
  listed : ∃ names : List GoString, expansion = join blank names ∧ names.Nodup ∧
    (∀ name ∈ names, name ∈ scopes ∧ ∃ s ∈ fields scope, Covers tb s name) ∧
    ∀ s ∈ fields scope, ∃ name ∈ names, Covers tb s name
  stable : isScopeValidAndExpand tb expansion scopes = (expansion, true)

-- Reading a string span by span.

theorem spansFrom_drop (skip : ℕ) (s : GoString) : spansFrom skip s = spans (s.drop skip) := by
  induction s generalizing skip with
  | nil =>
    rw [List.drop_nil]
    cases skip <;> rfl
  | cons b s ih =>
    cases skip with
    | zero => rfl
    | succ skip => exact ih skip

theorem spans_append_char (c : Char) (s : GoString) :
    spans (String.utf8EncodeChar c ++ s) = (.char c, String.utf8EncodeChar c) :: spans s := by
  have hdec := decodeRune_append c s
  obtain ⟨b, bs, henc, hskip⟩ := utf8EncodeChar_cons c
  rw [henc, List.cons_append] at hdec ⊢
  rw [spans, spansFrom, hdec]
  simp only [spansFrom_drop, hskip, List.drop_left, henc]

theorem spans_of_decodeRune_none {b : UInt8} {s : GoString} (h : decodeRune (b :: s) = none) :
    spans (b :: s) = (.malformed, [b]) :: spans s := by
  rw [spans, spansFrom, h]
  rfl

theorem spans_runes (s : GoString) : (spans s).map Prod.fst = runes s := by
  induction s using rune_induction with
  | nil => rfl
  | char c s ih => rw [spans_append_char, runes_append_char, List.map_cons, ih]
  | malformed b s hdec ih =>
    rw [spans_of_decodeRune_none hdec, runes_of_decodeRune_none hdec, List.map_cons, ih]

theorem spans_flatMap (s : GoString) : (spans s).flatMap Prod.snd = s := by
  induction s using rune_induction with
  | nil => rfl
  | char c s ih => rw [spans_append_char, List.flatMap_cons, ih]
  | malformed b s hdec ih =>
    rw [spans_of_decodeRune_none hdec, List.flatMap_cons, ih]
    rfl

theorem decodeRune_none_append {b f : UInt8} {s t : GoString} (hf : f.IsUTF8FirstByte)
    (h : decodeRune (b :: s) = none) : decodeRune (b :: s ++ f :: t) = none := by
  rw [Option.eq_none_iff_forall_ne_some]
  intro c hc
  obtain ⟨rest, hrest⟩ := eq_append_of_decodeRune hc
  obtain hlt | hle := Nat.lt_or_ge (b :: s).length (String.utf8EncodeChar c).length
  · have hget : (String.utf8EncodeChar c)[(b :: s).length]? = some f := by
      rw [← List.getElem?_append_left hlt, ← hrest, List.getElem?_append_right (Nat.le_refl _), Nat.sub_self]
      rfl
    obtain ⟨_, hf'⟩ := List.getElem?_eq_some_iff.mp hget
    rw [← hf'] at hf
    exact Nat.succ_ne_zero _ (UInt8.isUTF8FirstByte_getElem_utf8EncodeChar.mp hf)
  · have hprefix : String.utf8EncodeChar c <+: b :: s :=
      List.prefix_of_prefix_length_le ⟨rest, hrest.symm⟩ (List.prefix_append _ _) hle
    obtain ⟨u, hu⟩ := hprefix
    rw [← hu, decodeRune_append] at h
    cases h

theorem spans_append_blank (s t : GoString) :
    spans (s ++ blank :: t) = spans s ++ (.char ' ', [blank]) :: spans t := by
  induction s using rune_induction with
  | nil => exact spans_append_char ' ' t
  | char c s ih => rw [List.append_assoc, spans_append_char, ih, spans_append_char, List.cons_append]
  | malformed b s hdec ih =>
    have hblank : blank.IsUTF8FirstByte := by decide
    have hdec' := decodeRune_none_append hblank (t := t) hdec
    rw [List.cons_append] at hdec' ⊢
    rw [spans_of_decodeRune_none hdec', ih, spans_of_decodeRune_none hdec, List.cons_append]

/-- A name that is not empty and holds no blank. -/
structure Plain (name : GoString) : Prop where
  ne_nil : name ≠ []
  noBlank : ∀ r ∈ runes name, isBlank r = false

theorem Plain.splitOnP {name : GoString} (h : Plain name) :
    (spans name).splitOnP (isBlank ·.1) = [spans name] := by
  apply List.splitOnP_eq_singleton
  intro u hu
  apply h.noBlank
  rw [← spans_runes]
  exact List.mem_map_of_mem hu

theorem Plain.kept {name : GoString} (h : Plain name) :
    ([spans name].map (·.flatMap Prod.snd)).filter (· ≠ []) = [name] := by
  rw [List.map_singleton, spans_flatMap, List.filter_singleton, decide_eq_true h.ne_nil, cond_true]

theorem fields_join {names : List GoString} (h : ∀ name ∈ names, Plain name) :
    fields (join blank names) = names := by
  induction names with
  | nil => rfl
  | cons n rest ih =>
    have hn := h n List.mem_cons_self
    cases rest with
    | nil =>
      have hjoin : join blank [n] = n := by simp [join]
      rw [hjoin, fields, hn.splitOnP, hn.kept]
    | cons m rest =>
      have hjoin : join blank (n :: m :: rest) = n ++ blank :: join blank (m :: rest) := by
        simp [join, List.intercalate]
      have ih := ih fun name hname => h name (List.mem_cons_of_mem n hname)
      rw [hjoin, fields, spans_append_blank, List.splitOnP_append_cons _ _ (by decide), hn.splitOnP,
        List.map_append, List.filter_append, hn.kept]
      exact congrArg (n :: ·) ih

theorem Plain.oneLine {name : GoString} (h : Plain name) : 10 ∉ codePoints name := by
  intro hmem
  rw [codePoints, toValid, String.toList_ofList] at hmem
  obtain ⟨c, hc, hten⟩ := List.mem_map.mp hmem
  obtain ⟨r, hr, rfl⟩ := List.mem_map.mp hc
  cases r with
  | malformed => exact absurd hten (by decide)
  | char c =>
    have hblank : isSpace c = false := h.noBlank _ hr
    have hspace : isSpace c = true := by
      have hc : c.toNat = 10 := hten
      rw [isSpace, hc]
      rfl
    rw [hspace] at hblank
    cases hblank

-- What one field selects, and what a run over the fields gathers.

/-- The field asks for the name: by its text, or by what the pattern finds between its anchors. -/
def Selects (scopes : List GoString) (s name : GoString) : Prop :=
  name ∈ scopes ∧
    if s ∈ scopes then name = s
    else isRegexScope s ∧ ∃ re, tb.compile (anchored s) = some re ∧ matchString re name

variable {tb} {scopes : List GoString}

theorem mem_appendUnseen {expanded : List GoString} {name n : GoString} :
    n ∈ appendUnseen expanded name ↔ n ∈ expanded ∨ n = name := by
  rw [appendUnseen]
  split
  · next h =>
    constructor
    · exact .inl
    · rintro (hn | rfl)
      · exact hn
      · exact h
  · rw [List.mem_append, List.mem_singleton]

theorem nodup_appendUnseen {expanded : List GoString} (h : expanded.Nodup) (name : GoString) :
    (appendUnseen expanded name).Nodup := by
  rw [appendUnseen]
  split
  · exact h
  · next hname => exact List.nodup_append_comm.mp (List.nodup_cons.mpr ⟨hname, h⟩)

theorem mem_foldl_appendUnseen {expanded names : List GoString} {n : GoString} :
    n ∈ names.foldl appendUnseen expanded ↔ n ∈ expanded ∨ n ∈ names := by
  induction names generalizing expanded with
  | nil => simp
  | cons m names ih => rw [List.foldl_cons, ih, mem_appendUnseen, List.mem_cons, or_assoc]

theorem nodup_foldl_appendUnseen {expanded : List GoString} (h : expanded.Nodup) (names : List GoString) :
    (names.foldl appendUnseen expanded).Nodup := by
  induction names generalizing expanded with
  | nil => exact h
  | cons m names ih => exact ih (nodup_appendUnseen h m)

theorem foldl_appendUnseen_of_nodup {expanded names : List GoString} (h : (expanded ++ names).Nodup) :
    names.foldl appendUnseen expanded = expanded ++ names := by
  induction names generalizing expanded with
  | nil => rw [List.append_nil, List.foldl_nil]
  | cons m names ih =>
    have hm : m ∉ expanded := by
      intro hm
      exact List.disjoint_of_nodup_append h hm List.mem_cons_self
    rw [List.append_cons] at h
    rw [List.foldl_cons, appendUnseen, if_neg hm, ih h, ← List.append_cons]

theorem expandField_spec {expanded out : List GoString} {s : GoString}
    (h : expandField tb scopes expanded s = some out) :
    (∃ name, Selects tb scopes s name) ∧ (expanded.Nodup → out.Nodup) ∧
      ∀ name, name ∈ out ↔ name ∈ expanded ∨ Selects tb scopes s name := by
  rw [expandField] at h
  split at h
  · next hs =>
    rw [← Option.some.inj h]
    simp only [Selects, if_pos hs, mem_appendUnseen]
    refine ⟨⟨s, hs, rfl⟩, fun hnodup => nodup_appendUnseen hnodup s, fun name => or_congr_right ?_⟩
    constructor
    · rintro rfl
      exact ⟨hs, rfl⟩
    · exact And.right
  · next hs =>
    split at h
    · cases h
    · next hmeta =>
      obtain ⟨re, hre, h⟩ := Option.bind_eq_some_iff.mp h
      have hmeta : isRegexScope s = true := by simpa using hmeta
      have hsel (name : GoString) :
          Selects tb scopes s name ↔ name ∈ scopes.filter (matchString re) := by
        rw [Selects, if_neg hs, List.mem_filter, hre]
        simp only [hmeta, true_and, Option.some.injEq, exists_eq_left']
      dsimp only at h
      split at h
      · cases h
      · next hne =>
        rw [← Option.some.inj h]
        obtain ⟨n, hn⟩ := List.exists_mem_of_ne_nil _ hne
        refine ⟨⟨n, (hsel n).mpr hn⟩, fun hnodup => nodup_foldl_appendUnseen hnodup _, fun name => ?_⟩
        rw [mem_foldl_appendUnseen, hsel]

theorem expandField_isSome {expanded : List GoString} {s name : GoString}
    (h : Selects tb scopes s name) : (expandField tb scopes expanded s).isSome := by
  obtain ⟨hname, h⟩ := h
  rw [expandField]
  split at h
  · rw [if_pos ‹_›]
    rfl
  · obtain ⟨hmeta, re, hre, hmatch⟩ := h
    have hne : scopes.filter (matchString re) ≠ [] :=
      List.ne_nil_of_mem (List.mem_filter.mpr ⟨hname, hmatch⟩)
    rw [if_neg ‹_›, hmeta, hre]
    simp only [Bool.not_true, Bool.false_eq_true, if_false, Option.bind_some, if_neg hne, Option.isSome_some]

theorem expandFields_spec {expanded out fs : List GoString}
    (h : fs.foldlM (expandField tb scopes) expanded = some out) :
    (∀ s ∈ fs, ∃ name, Selects tb scopes s name) ∧ (expanded.Nodup → out.Nodup) ∧
      ∀ name, name ∈ out ↔ name ∈ expanded ∨ ∃ s ∈ fs, Selects tb scopes s name := by
  induction fs generalizing expanded with
  | nil =>
    rw [List.foldlM_nil] at h
    cases h
    exact ⟨List.forall_mem_nil _, id, fun name => by simp⟩
  | cons s fs ih =>
    rw [List.foldlM_cons] at h
    obtain ⟨mid, hmid, h⟩ := Option.bind_eq_some_iff.mp h
    obtain ⟨hsome, hnodup, hmem⟩ := expandField_spec hmid
    obtain ⟨hsomes, hnodups, hmems⟩ := ih h
    refine ⟨List.forall_mem_cons.mpr ⟨hsome, hsomes⟩, fun hn => hnodups (hnodup hn), fun name => ?_⟩
    rw [hmems, hmem, or_assoc]
    simp only [List.mem_cons, exists_eq_or_imp]

theorem expandFields_isSome {fs : List GoString} (h : ∀ s ∈ fs, ∃ name, Selects tb scopes s name)
    (expanded : List GoString) : (fs.foldlM (expandField tb scopes) expanded).isSome := by
  induction fs generalizing expanded with
  | nil => rfl
  | cons s fs ih =>
    obtain ⟨name, hname⟩ := h s List.mem_cons_self
    obtain ⟨mid, hmid⟩ : ∃ mid, expandField tb scopes expanded s = some mid :=
      Option.isSome_iff_exists.mp (expandField_isSome hname)
    rw [List.foldlM_cons, hmid]
    exact ih (fun s hs => h s (List.mem_cons_of_mem _ hs)) mid

theorem valid_iff (hscopes : scopes ≠ []) (scope : GoString) :
    isScopeValid tb scope scopes ↔ ∀ s ∈ fields scope, ∃ name, Selects tb scopes s name := by
  rw [isScopeValid, isScopeValidAndExpand]
  by_cases hscope : scope = []
  · rw [if_pos (.inr hscope), hscope]
    exact iff_of_true rfl (List.forall_mem_nil _)
  · rw [if_neg (not_or.mpr ⟨hscopes, hscope⟩)]
    constructor
    · intro h
      split at h
      · next hrun => exact (expandFields_spec hrun).1
      · cases h
    · intro h
      obtain ⟨out, hout⟩ := Option.isSome_iff_exists.mp (expandFields_isSome h [])
      rw [hout]

theorem expansion_spec (hscopes : scopes ≠ []) {scope : GoString} (h : isScopeValid tb scope scopes) :
    ∃ names : List GoString, (isScopeValidAndExpand tb scope scopes).1 = join blank names ∧
      names.Nodup ∧ ∀ name, name ∈ names ↔ ∃ s ∈ fields scope, Selects tb scopes s name := by
  rw [isScopeValid, isScopeValidAndExpand] at h
  rw [isScopeValidAndExpand]
  by_cases hscope : scope = []
  · rw [if_pos (.inr hscope), hscope]
    exact ⟨[], rfl, List.nodup_nil, fun name => iff_of_false List.not_mem_nil (by simp [fields, spans, spansFrom])⟩
  · rw [if_neg (not_or.mpr ⟨hscopes, hscope⟩)] at h ⊢
    split at h
    · next out hrun =>
      obtain ⟨-, hnodup, hmem⟩ := expandFields_spec hrun
      refine ⟨out, rfl, hnodup List.nodup_nil, fun name => ?_⟩
      rw [hmem, or_iff_right List.not_mem_nil]
    · cases h

theorem expand_allowed {names : List GoString} (hscopes : ∀ name ∈ scopes, Plain name)
    (hnames : names ⊆ scopes) (hnodup : names.Nodup) :
    isScopeValidAndExpand tb (join blank names) scopes = (join blank names, true) := by
  have hliteral (rest expanded : List GoString) (hrest : rest ⊆ scopes) :
      rest.foldlM (expandField tb scopes) expanded = some (rest.foldl appendUnseen expanded) := by
    induction rest generalizing expanded with
    | nil => rfl
    | cons n rest ih =>
      have hn : n ∈ scopes := hrest List.mem_cons_self
      rw [List.foldlM_cons, expandField, if_pos hn]
      exact ih _ fun m hm => hrest (List.mem_cons_of_mem n hm)
  rw [isScopeValidAndExpand]
  split
  · rfl
  · rw [fields_join fun name hname => hscopes name (hnames hname), hliteral names [] hnames,
      foldl_appendUnseen_of_nodup (by rwa [List.nil_append]), List.nil_append]

-- What a pattern that compiles on its own selects between its anchors.

theorem parse_of_compile {s : GoString} {p : Pattern} (h : tb.compile s = some p) :
    malformed s = 0 ∧ tb.parse (toValid s).toList = some p := by
  rw [Tables.compile] at h
  split at h
  · exact ⟨‹_›, h⟩
  · cases h

theorem compile_utf8 (s : String) : tb.compile (utf8 s) = tb.parse s.toList := by
  rw [Tables.compile, if_pos (malformed_utf8 s), toValid_utf8]

theorem matchString_anchored {s : GoString} {p re : Pattern} (hp : tb.compile s = some p)
    (hre : tb.compile (anchored s) = some re) (name : GoString) :
    matchString re name = tb.reaches p (codePoints name) := by
  obtain ⟨hvalid, hparse⟩ := parse_of_compile hp
  have hanchored : anchored s = utf8 ("^" ++ toValid s ++ "$") := by
    rw [anchored, ← utf8_append, ← utf8_append, utf8_toValid hvalid]
  have hlist : ("^" ++ toValid s ++ "$").toList = '^' :: ((toValid s).toList ++ ['$']) := by
    rw [String.toList_append, String.toList_append]
    rfl
  rw [hanchored, compile_utf8, hlist] at hre
  obtain ⟨q, hq, hsearch⟩ := parse_anchored tb hparse (fits_of_parse tb hre) (codePoints name)
  rw [hre] at hq
  rw [matchString, Option.some.inj hq]
  exact hsearch

theorem Plain.matchString_closed {name : GoString} (h : Plain name) {s : GoString} {p re : Pattern}
    (hp : tb.compile s = some p) (hclosed : p.closed) (hre : tb.compile (anchored s) = some re) :
    matchString re name = whole p.regex (codePoints name) := by
  rw [matchString_anchored hp hre, reaches_closed tb hclosed h.oneLine]

variable (tb scopes)

/-- What a pattern that compiles on its own reaches between its anchors. -/
def Catches (s name : GoString) : Prop :=
  name ∈ scopes ∧
    if s ∈ scopes then name = s else ∃ p, tb.compile s = some p ∧ tb.reaches p (codePoints name)

/-- A field that is an allowed name, a pattern that is anchored as a whole, or a pattern whose stray
names are covered and which matches a name that is granted. -/
def Contained (fs : List GoString) (s : GoString) : Prop :=
  s ∈ scopes ∨ ∃ p, tb.compile s = some p ∧
    (p.closed ∨
      (∃ name, Covers tb s name ∧ ∃ t ∈ fs, Catches tb scopes t name) ∧
        ∀ name, Catches tb scopes s name → ∃ t ∈ fs, Covers tb t name)

variable {tb scopes}

theorem catches_iff {s : GoString} (hs : s ∈ scopes ∨ ∃ p, tb.compile s = some p)
    (hsel : ∃ name, Selects tb scopes s name) (name : GoString) :
    Catches tb scopes s name ↔ Selects tb scopes s name := by
  rw [Catches, Selects]
  refine and_congr_right fun _ => ?_
  by_cases hmem : s ∈ scopes
  · rw [if_pos hmem, if_pos hmem]
  · rw [if_neg hmem, if_neg hmem]
    obtain ⟨p, hp⟩ := hs.resolve_left hmem
    obtain ⟨n, -, hn⟩ := hsel
    rw [if_neg hmem] at hn
    obtain ⟨hmeta, re, hre, -⟩ := hn
    rw [hp, hre]
    simp only [Option.some.injEq, exists_eq_left', hmeta, true_and, matchString_anchored hp hre]

/-- The expansion is sound exactly if a field selects nothing, so that the request is refused, or
every field is contained. -/
theorem expansion_sound_iff (hscopes : scopes ≠ []) (hplain : ∀ name ∈ scopes, Plain name)
    (scope : GoString) :
    (isScopeValid tb scope scopes →
        Sound tb scope scopes (isScopeValidAndExpand tb scope scopes).1) ↔
      (∃ s ∈ fields scope, ∀ name, ¬Selects tb scopes s name) ∨
        ∀ s ∈ fields scope, Contained tb scopes (fields scope) s := by
  by_cases hvalid : isScopeValid tb scope scopes
  swap
  · refine iff_of_true (fun h => absurd h hvalid) (.inl ?_)
    rw [valid_iff hscopes] at hvalid
    push Not at hvalid
    exact hvalid
  have hsel := (valid_iff hscopes scope).mp hvalid
  obtain ⟨names, hout, hnodup, hmem⟩ := expansion_spec hscopes hvalid
  have hsub : names ⊆ scopes := by
    intro name hname
    obtain ⟨s, -, hs⟩ := (hmem name).mp hname
    exact hs.1
  have hrefused : ¬∃ s ∈ fields scope, ∀ name, ¬Selects tb scopes s name := by
    intro ⟨s, hs, hnone⟩
    obtain ⟨name, hname⟩ := hsel s hs
    exact hnone name hname
  rw [hout, imp_iff_right hvalid, or_iff_right hrefused]
  constructor
  · intro ⟨⟨names', hjoin, _, hlisted, hcovers⟩, _⟩
    -- the names that the text lists are the ones that were expanded
    have hnames : names' = names := by
      have h := congrArg fields hjoin
      rw [fields_join fun name hname => hplain name (hsub hname),
        fields_join fun name hname => hplain name (hlisted name hname).1] at h
      exact h.symm
    subst hnames
    have hcompiles (s : GoString) (hs : s ∈ fields scope) : s ∈ scopes ∨ ∃ p, tb.compile s = some p := by
      obtain ⟨name, hname, rfl | ⟨p, hp, -⟩⟩ := hcovers s hs
      · exact .inl (hsub hname)
      · exact .inr ⟨p, hp⟩
    intro s hs
    obtain hlit | ⟨p, hp⟩ := hcompiles s hs
    · exact .inl hlit
    · refine .inr ⟨p, hp, .inr ⟨?_, fun name hname => ?_⟩⟩
      · obtain ⟨name, hname, hcover⟩ := hcovers s hs
        obtain ⟨t, ht, hselects⟩ := (hmem name).mp hname
        exact ⟨name, hcover, t, ht, (catches_iff (hcompiles t ht) (hsel t ht) name).mpr hselects⟩
      · have hselects := (catches_iff (hcompiles s hs) (hsel s hs) name).mp hname
        exact (hlisted name ((hmem name).mpr ⟨s, hs, hselects⟩)).2
  · intro hcontained
    have hcompiles (s : GoString) (hs : s ∈ fields scope) : s ∈ scopes ∨ ∃ p, tb.compile s = some p :=
      (hcontained s hs).imp_right fun ⟨p, hp, _⟩ => ⟨p, hp⟩
    have hclosed {s : GoString} {p : Pattern} (hlit : s ∉ scopes) (hp : tb.compile s = some p)
        (hc : p.closed) {name : GoString} (hname : Selects tb scopes s name) : Covers tb s name := by
      obtain ⟨hallowed, hname⟩ := hname
      rw [if_neg hlit] at hname
      obtain ⟨-, re, hre, hmatch⟩ := hname
      rw [(hplain name hallowed).matchString_closed hp hc hre] at hmatch
      exact .inr ⟨p, hp, hmatch⟩
    refine ⟨⟨names, rfl, hnodup, fun name hname => ⟨hsub hname, ?_⟩, fun s hs => ?_⟩,
      expand_allowed hplain hsub hnodup⟩
    · obtain ⟨s, hs, hselects⟩ := (hmem name).mp hname
      by_cases hlit : s ∈ scopes
      · obtain ⟨-, heq⟩ := hselects
        rw [if_pos hlit] at heq
        exact ⟨s, hs, .inl heq⟩
      · obtain ⟨p, hp, hc | ⟨-, hstray⟩⟩ := (hcontained s hs).resolve_left hlit
        · exact ⟨s, hs, hclosed hlit hp hc hselects⟩
        · exact hstray name ((catches_iff (hcompiles s hs) (hsel s hs) name).mpr hselects)
    · by_cases hlit : s ∈ scopes
      · exact ⟨s, (hmem s).mpr ⟨s, hs, hlit, by rw [if_pos hlit]⟩, .inl rfl⟩
      · obtain ⟨p, hp, hc | ⟨⟨name, hcover, t, ht, hcatch⟩, -⟩⟩ := (hcontained s hs).resolve_left hlit
        · obtain ⟨name, hselects⟩ := hsel s hs
          exact ⟨name, (hmem name).mpr ⟨s, hs, hselects⟩, hclosed hlit hp hc hselects⟩
        · have hselects := (catches_iff (hcompiles t ht) (hsel t ht) name).mp hcatch
          exact ⟨name, (hmem name).mpr ⟨t, ht, hselects⟩, hcover⟩

theorem plain_utf8 {s : String} (hne : s ≠ "") (h : s.toList.all fun c => !isSpace c) :
    Plain (utf8 s) := by
  constructor
  · exact fun hnil => hne (utf8_injective hnil)
  · intro r hr
    rw [runes_utf8] at hr
    obtain ⟨c, hc, rfl⟩ := List.mem_map.mp hr
    exact (Bool.not_eq_true' _).mp (List.all_eq_true.mp h c hc)

theorem Plain.fields {name : GoString} (h : Plain name) : fields name = [name] := by
  have hjoin : join blank [name] = name := by simp [join]
  have hfields := fields_join (List.forall_mem_singleton.mpr h)
  rwa [hjoin] at hfields

theorem codePoints_utf8 (s : String) : codePoints (utf8 s) = s.toList.map Char.toNat := by
  rw [codePoints, toValid_utf8]

namespace Sample

/-- No Unicode group and no letter that folds, and room for every pattern. -/
def tables : Tables := ⟨fun _ => [], fun _ => none, fun _ => true⟩

def readAll : GoString := utf8 "readall"

def allowed : List GoString := [readAll, utf8 "write"]

theorem allowed_plain : ∀ name ∈ allowed, Plain name := by
  refine List.forall_mem_cons.mpr ?_
  refine ⟨plain_utf8 (by decide) (by decide), List.forall_mem_singleton.mpr ?_⟩
  exact plain_utf8 (by decide) (by decide)

theorem valid_of_found {pattern : String} (hfields : fields (utf8 pattern) = [utf8 pattern])
    (hlit : utf8 pattern ∉ allowed) (hmeta : isRegexScope (utf8 pattern))
    (hfound : (tables.parse ("^" ++ pattern ++ "$").toList).any fun re =>
      search re.regex ("readall".toList.map Char.toNat)) :
    isScopeValid tables (utf8 pattern) allowed := by
  rw [valid_iff (by decide), hfields]
  refine List.forall_mem_singleton.mpr ⟨readAll, List.mem_cons_self, ?_⟩
  rw [if_neg hlit]
  obtain ⟨re, hre, hsearch⟩ := (Option.any_eq_true _ _).mp hfound
  refine ⟨hmeta, re, ?_, ?_⟩
  · rw [anchored, utf8_append, utf8_append, compile_utf8]
    exact hre
  · rw [matchString, readAll, codePoints_utf8]
    exact hsearch

end Sample

open Sample

/-- A pattern with the bar in a group expands to what it matches. -/
theorem grouped_bar_sound :
    isScopeValid tables (utf8 "(read|wri).*") allowed ∧
      Sound tables (utf8 "(read|wri).*") allowed
        (isScopeValidAndExpand tables (utf8 "(read|wri).*") allowed).1 := by
  have hfields : fields (utf8 "(read|wri).*") = [utf8 "(read|wri).*"] :=
    (plain_utf8 (by decide) (by decide)).fields
  have hvalid := valid_of_found hfields (by decide) (by decide) (by decide)
  refine ⟨hvalid, (expansion_sound_iff (by decide) allowed_plain _).mpr (.inr ?_) hvalid⟩
  rw [hfields]
  refine List.forall_mem_singleton.mpr ?_
  have hclosed : (tables.parse "(read|wri).*".toList).any Pattern.closed := by decide
  obtain ⟨p, hp, hc⟩ := (Option.any_eq_true _ _).mp hclosed
  exact .inr ⟨p, (compile_utf8 _).trans hp, .inl hc⟩

/-- `read|zzz` between its anchors finds `readall`, which it does not match. -/
theorem bar_widens :
    isScopeValid tables (utf8 "read|zzz") allowed ∧
      ¬Sound tables (utf8 "read|zzz") allowed
        (isScopeValidAndExpand tables (utf8 "read|zzz") allowed).1 := by
  have hfields : fields (utf8 "read|zzz") = [utf8 "read|zzz"] :=
    (plain_utf8 (by decide) (by decide)).fields
  constructor
  · exact valid_of_found hfields (by decide) (by decide) (by decide)
  · intro ⟨⟨names, _, _, hlisted, hcovers⟩, _⟩
    rw [hfields] at hcovers
    obtain ⟨name, hname, hcover⟩ := List.forall_mem_singleton.mp hcovers
    have hallowed : name ∈ allowed := (hlisted name hname).1
    have hnone : (tables.parse "read|zzz".toList).all fun p =>
        ["readall", "write"].all fun n => !whole p.regex (n.toList.map Char.toNat) := by decide
    obtain rfl | ⟨p, hp, hwhole⟩ := hcover
    · exact absurd hallowed (by decide)
    · rw [compile_utf8] at hp
      rw [hp] at hnone
      obtain ⟨n, hn, rfl⟩ : ∃ n ∈ ["readall", "write"], name = utf8 n := by
        simpa [allowed, readAll] using hallowed
      rw [codePoints_utf8] at hwhole
      have hfalse := List.all_eq_true.mp hnone n hn
      rw [hwhole] at hfalse
      cases hfalse

end ArchGuard.ScopePatterns
