import PlatformGo.Lib.Distinct
import PlatformGo.Lib.Ordered
import PlatformGo.Ref.ProviderMetadata

/-!
# The catalog of a provider

What `Normalize` makes of a dataset depends on that dataset only (`canonical`).
It accepts a list if the canonical datasets are valid and have distinct codes,
and its result is those datasets in the order of their codes. So lists with the
same canonical datasets have one result, and one encoding of it.

The results are the lists that `Normalize` leaves as they are (`Catalog`). The
codes and formats in them are plain, which is all that is needed for the other
spellings of a list to have its canonical datasets.
-/

namespace PlatformGo.ProviderMetadata

open Spelling PlatformGo.Distinct

variable {E : Type} {p : Package E} {u : Unicode} {json : Json E}

/-! ## The datasets that are accepted -/

def sortedFormats (u : Unicode) (formats : List String) : List String :=
  (formats.map fun f => u.toLower (trimSpace f)).eraseDups.insertionSort (· ≤ ·)

/-- A dataset with its formats as `Normalize` leaves them. -/
def withSortedFormats (u : Unicode) (d : Dataset E) : Dataset E :=
  { d with formats := sortedFormats u d.formats }

def canonical (u : Unicode) (d : Dataset E) : Dataset E :=
  withSortedFormats u (trimDataset u d)

theorem canonical_title (d : Dataset E) :
    (canonical u d).title = trimSpace d.title := by
  rw [canonical, withSortedFormats, trimDataset]

theorem canonical_formats (d : Dataset E) :
    (canonical u d).formats = sortedFormats u d.formats := by
  rw [canonical, withSortedFormats, trimDataset]

structure Valid (p : Package E) (d : Dataset E) : Prop where
  code : datasetCode d.code = true
  title : d.title ≠ ""
  options : p.accepts d.options = true
  formats : d.formats ≠ []
  supported : ∀ f ∈ d.formats, f ∈ supportedFormats

theorem mem_sortedFormats {formats : List String} {f : String} :
    f ∈ sortedFormats u formats ↔
      ∃ g ∈ formats, u.toLower (trimSpace g) = f := by
  rw [sortedFormats, List.mem_insertionSort, List.mem_eraseDups, List.mem_map]

theorem sorted_sortedFormats (formats : List String) :
    (sortedFormats u formats).Pairwise (· < ·) := by
  refine Ordered.sorted_insertionSort id ?_
  rw [List.map_id]
  exact nodup_eraseDups _

theorem normalizeFormats_ok_iff {code : String}
    {formats rest result : List String} :
    normalizeFormats u code formats rest = .ok result ↔
      (∀ f ∈ rest, u.toLower (trimSpace f) ∈ supportedFormats) ∧
      collect formats (rest.map fun f => u.toLower (trimSpace f)) = result := by
  induction rest generalizing formats with
  | nil => simp [normalizeFormats, collect]
  | cons f rest ih =>
      simp only [normalizeFormats, List.map_cons, List.forall_mem_cons, collect,
        List.contains_iff_mem]
      by_cases hf : u.toLower (trimSpace f) ∈ supportedFormats
      · rw [if_neg (not_not.mpr hf)]
        by_cases hseen : u.toLower (trimSpace f) ∈ formats
        · rw [if_neg (not_not.mpr hseen), if_pos hseen, ih]
          simp only [hf, true_and]
        · rw [if_pos hseen, if_neg hseen, ih]
          simp only [hf, true_and]
      · simp [hf]

theorem checkDataset_ok_iff {seen : List String} {d d' : Dataset E} :
    checkDataset p u seen d = .ok d' ↔
      (Valid p (withSortedFormats u d) ∧ d.code ∉ seen) ∧
      withSortedFormats u d = d' := by
  simp only [checkDataset, List.contains_iff_mem]
  split
  · next hbad =>
      refine iff_of_false nofun ?_
      rintro ⟨⟨hvalid, -⟩, -⟩
      rcases hbad with h | h | h
      · exact h hvalid.code
      · exact hvalid.title h
      · exact h hvalid.options
  next hgood =>
  simp only [not_or, not_not] at hgood
  obtain ⟨hcode, htitle, hoptions⟩ := hgood
  split
  · next hseen => exact iff_of_false nofun fun h => h.1.2 hseen
  next hseen =>
  split
  · next err herr =>
      refine iff_of_false nofun ?_
      rintro ⟨⟨hvalid, -⟩, -⟩
      have hok : ∃ formats, normalizeFormats u d.code [] d.formats = .ok formats :=
        ⟨_, normalizeFormats_ok_iff.mpr ⟨fun f hf =>
          hvalid.supported _ (mem_sortedFormats.mpr ⟨f, hf, rfl⟩), rfl⟩⟩
      obtain ⟨formats, hok⟩ := hok
      rw [herr] at hok
      cases hok
  next formats hformats =>
  obtain ⟨hsupported, rfl⟩ := normalizeFormats_ok_iff.mp hformats
  rw [collect_nil_eq]
  have hlength : (d.formats.map fun f => u.toLower (trimSpace f)).eraseDups.length =
      (sortedFormats u d.formats).length := by
    rw [sortedFormats, List.length_insertionSort]
  rw [hlength]
  split
  · next hempty =>
      exact iff_of_false nofun fun h =>
        h.1.1.formats (List.length_eq_zero_iff.mp hempty)
  · next hne =>
      have hvalid : Valid p (withSortedFormats u d) := by
        refine ⟨hcode, htitle, hoptions, ?_, ?_⟩
        · exact fun hnil => hne (List.length_eq_zero_iff.mpr hnil)
        · intro f hf
          obtain ⟨g, hg, rfl⟩ := mem_sortedFormats.mp hf
          exact hsupported g hg
      rw [Except.ok.injEq]
      exact ⟨fun h => ⟨⟨hvalid, hseen⟩, h⟩, And.right⟩

theorem bind_ok_iff {α β : Type} {x : Except GoErr α} {f : α → Except GoErr β}
    {b : β} : (x >>= f) = .ok b ↔ ∃ a, x = .ok a ∧ f a = .ok b := by
  cases x with
  | error err => exact iff_of_false nofun nofun
  | ok a => exact ⟨fun h => ⟨a, rfl, h⟩, fun ⟨_, ha, h⟩ => Except.ok.inj ha ▸ h⟩

theorem normalizeDatasets_ok_iff {seen : List String}
    {ds result : List (Dataset E)} :
    normalizeDatasets p u seen ds = .ok result ↔
      ((∀ c ∈ ds.map (canonical u), Valid p c ∧ c.code ∉ seen) ∧
        ((ds.map (canonical u)).map Dataset.code).Nodup) ∧
      ds.map (canonical u) = result := by
  induction ds generalizing seen result with
  | nil => simp [normalizeDatasets]
  | cons d ds ih =>
      -- the rest is new to the codes before it and to this one
      have hrest : (∀ c ∈ ds.map (canonical u),
          Valid p c ∧ c.code ∉ (canonical u d).code :: seen) ↔
          (∀ c ∈ ds.map (canonical u), Valid p c ∧ c.code ∉ seen) ∧
            (canonical u d).code ∉ (ds.map (canonical u)).map Dataset.code := by
        simp only [List.mem_cons, not_or, List.mem_map (f := Dataset.code),
          not_exists, not_and]
        constructor
        · exact fun h => ⟨fun c hc => ⟨(h c hc).1, (h c hc).2.2⟩,
            fun c hc => (h c hc).2.1⟩
        · exact fun h c hc => ⟨(h.1 c hc).1, h.2 c hc, (h.1 c hc).2⟩
      rw [normalizeDatasets, bind_ok_iff]
      constructor
      · rintro ⟨value, hvalue, hresult⟩
        obtain ⟨hd, rfl⟩ := checkDataset_ok_iff.mp hvalue
        obtain ⟨rest, hok, hresult⟩ := bind_ok_iff.mp hresult
        obtain ⟨⟨hall, hnodup⟩, rfl⟩ := ih.mp hok
        obtain ⟨hall, hnotin⟩ := hrest.mp hall
        refine ⟨⟨?_, ?_⟩, Except.ok.inj hresult⟩
        · exact List.forall_mem_cons.mpr ⟨hd, hall⟩
        · exact List.nodup_cons.mpr ⟨hnotin, hnodup⟩
      · rintro ⟨⟨hall, hnodup⟩, rfl⟩
        obtain ⟨hd, hall⟩ := List.forall_mem_cons.mp hall
        obtain ⟨hnotin, hnodup⟩ := List.nodup_cons.mp hnodup
        refine ⟨canonical u d, checkDataset_ok_iff.mpr ⟨hd, rfl⟩, ?_⟩
        exact bind_ok_iff.mpr
          ⟨_, ih.mpr ⟨⟨hrest.mpr ⟨hall, hnotin⟩, hnodup⟩, rfl⟩, rfl⟩

/-- What is required of the canonical datasets of a list. -/
structure Accepted (p : Package E) (cs : List (Dataset E)) : Prop where
  nonempty : cs ≠ []
  valid : ∀ c ∈ cs, Valid p c
  nodup : (cs.map Dataset.code).Nodup

theorem normalize_ok_iff {ds result : List (Dataset E)} :
    normalize p u ds = .ok result ↔
      Accepted p (ds.map (canonical u)) ∧
      ((ds.map (canonical u)).insertionSort fun a b => a.code ≤ b.code) = result := by
  rw [normalize]
  split
  · next hempty =>
      refine iff_of_false nofun ?_
      rintro ⟨haccepted, -⟩
      exact haccepted.nonempty
        (by rw [List.length_eq_zero_iff.mp hempty, List.map_nil])
  next hne =>
  split
  · next err herr =>
      refine iff_of_false nofun ?_
      rintro ⟨haccepted, -⟩
      have hok : normalizeDatasets p u [] ds = .ok (ds.map (canonical u)) :=
        normalizeDatasets_ok_iff.mpr ⟨⟨fun c hc =>
          ⟨haccepted.valid c hc, List.not_mem_nil⟩, haccepted.nodup⟩, rfl⟩
      rw [herr] at hok
      cases hok
  · next cs hok =>
      obtain ⟨⟨hall, hnodup⟩, rfl⟩ := normalizeDatasets_ok_iff.mp hok
      have haccepted : Accepted p (ds.map (canonical u)) :=
        ⟨fun h => hne (by rw [List.map_eq_nil_iff.mp h, List.length_nil]),
          fun c hc => (hall c hc).1, hnodup⟩
      rw [Except.ok.injEq]
      exact ⟨fun h => ⟨haccepted, h⟩, And.right⟩

theorem Accepted.perm {cs cs' : List (Dataset E)} (h : Accepted p cs)
    (hperm : cs.Perm cs') : Accepted p cs' where
  nonempty hnil := h.nonempty (List.Perm.eq_nil (hnil ▸ hperm))
  valid c hc := h.valid c (hperm.mem_iff.mpr hc)
  nodup := (hperm.map Dataset.code).nodup_iff.mp h.nodup

/-- Lists with the same canonical datasets have one result. -/
theorem normalize_congr {ds ds' result : List (Dataset E)}
    (h : normalize p u ds = .ok result)
    (hperm : (ds.map (canonical u)).Perm (ds'.map (canonical u))) :
    normalize p u ds' = .ok result := by
  obtain ⟨haccepted, rfl⟩ := normalize_ok_iff.mp h
  have haccepted' := haccepted.perm hperm
  refine normalize_ok_iff.mpr ⟨haccepted', ?_⟩
  exact Ordered.insertionSort_congr Dataset.code haccepted'.nodup haccepted.nodup
    fun _ => hperm.mem_iff.symm

/-! ## Catalogs -/

/-- The lists that `Normalize` leaves as they are. -/
structure Catalog (p : Package E) (ds : List (Dataset E)) : Prop where
  nonempty : ds ≠ []
  valid : ∀ d ∈ ds, Valid p d
  trimmed : ∀ d ∈ ds, trimSpace d.title = d.title
  formats : ∀ d ∈ ds, d.formats.Pairwise (· < ·)
  sorted : ds.Pairwise fun a b => a.code < b.code

theorem catalog_of_normalize {ds result : List (Dataset E)}
    (h : normalize p u ds = .ok result) : Catalog p result := by
  obtain ⟨haccepted, rfl⟩ := normalize_ok_iff.mp h
  have hperm := List.perm_insertionSort (fun a b : Dataset E => a.code ≤ b.code)
    (ds.map (canonical u))
  have hcanonical : ∀ c ∈ (ds.map (canonical u)).insertionSort
      fun a b => a.code ≤ b.code, ∃ d ∈ ds, canonical u d = c := by
    intro c hc
    exact List.mem_map.mp (hperm.mem_iff.mp hc)
  have hsorted := Ordered.sorted_insertionSort Dataset.code haccepted.nodup
  have haccepted := haccepted.perm hperm.symm
  refine ⟨haccepted.nonempty, haccepted.valid, ?_, ?_, hsorted⟩
  · intro c hc
    obtain ⟨d, -, rfl⟩ := hcanonical c hc
    rw [canonical_title, trimSpace_trimSpace]
  · intro c hc
    obtain ⟨d, -, rfl⟩ := hcanonical c hc
    rw [canonical_formats]
    exact sorted_sortedFormats d.formats

theorem isPlain_of_isCodeChar {c : Char} (h : isCodeChar c = true) : IsPlain c := by
  simp only [isCodeChar, Bool.or_eq_true, Bool.and_eq_true, decide_eq_true_eq] at h
  refine isPlain_of_word ?_
  simpa [or_assoc] using h

theorem plain_of_datasetCode {code : String} (h : datasetCode code = true) :
    Plain code := by
  intro c hc
  apply isPlain_of_isCodeChar
  rw [datasetCode] at h
  split at h
  · cases h
  next first rest hlist =>
  simp only [Bool.and_eq_true, decide_eq_true_eq] at h
  obtain ⟨⟨⟨hfirst, hrest⟩, -⟩, -⟩ := h
  rw [hlist, List.mem_cons] at hc
  rcases hc with rfl | hc
  · simp [isCodeChar, hfirst]
  · exact List.all_eq_true.mp hrest c hc

theorem plain_of_supported {f : String} (h : f ∈ supportedFormats) : Plain f := by
  have hall : (supportedFormats.all fun f => f.toList.all isCodeChar) = true := by
    decide +kernel
  intro c hc
  have hf := List.all_eq_true.mp hall f h
  exact isPlain_of_isCodeChar (List.all_eq_true.mp hf c hc)

theorem sortedFormats_eq_self (hu : u.Lawful) {formats : List String}
    (hsupported : ∀ f ∈ formats, f ∈ supportedFormats)
    (hsorted : formats.Pairwise (· < ·)) : sortedFormats u formats = formats := by
  refine Ordered.eq_of_sorted id (sorted_sortedFormats formats) hsorted ?_
  have hplain : ∀ g ∈ formats, u.toLower (trimSpace g) = g := fun g hg =>
    toLower_trimSpace_plain hu (plain_of_supported (hsupported g hg))
  intro f
  rw [mem_sortedFormats]
  constructor
  · rintro ⟨g, hg, rfl⟩
    rwa [hplain g hg]
  · exact fun hf => ⟨f, hf, hplain f hf⟩

theorem Catalog.canonical_eq (hu : u.Lawful) {ds : List (Dataset E)}
    (h : Catalog p ds) {d : Dataset E} (hd : d ∈ ds) : canonical u d = d := by
  have hvalid := h.valid d hd
  have htrim : trimDataset u d = d := by
    rw [trimDataset, h.trimmed d hd,
      toLower_trimSpace_plain hu (plain_of_datasetCode hvalid.code)]
  rw [canonical, htrim, withSortedFormats,
    sortedFormats_eq_self hu hvalid.supported (h.formats d hd)]

theorem Catalog.normalize_eq (hu : u.Lawful) {ds : List (Dataset E)}
    (h : Catalog p ds) : normalize p u ds = .ok ds := by
  have hmap : ds.map (canonical u) = ds := by
    conv_rhs => rw [← List.map_id ds]
    exact List.map_congr_left fun d hd => h.canonical_eq hu hd
  refine normalize_ok_iff.mpr ?_
  rw [hmap]
  exact ⟨⟨h.nonempty, h.valid, Ordered.nodup_of_sorted _ h.sorted⟩,
    Ordered.insertionSort_eq_self Dataset.code h.sorted⟩

/-! ## Other ways to write a list -/

/-- Formats in other spellings, or in another order and with repetitions. -/
inductive Reformatted (u : Unicode) (formats formats' : List String) : Prop
  | respelled (h : List.Forall₂ (Respelled u) formats formats')
  | rearranged (h : ∀ f, f ∈ formats ↔ f ∈ formats')

structure Redescribed (u : Unicode) (d d' : Dataset E) : Prop where
  code : Respelled u d.code d'.code
  title : trimSpace d.title = trimSpace d'.title
  formats : Reformatted u d.formats d'.formats
  options : d.options = d'.options

/-- The same datasets in another order, or in other words. -/
inductive Rewritten (u : Unicode) : List (Dataset E) → List (Dataset E) → Prop
  | perm {ds ds' : List (Dataset E)} (h : ds.Perm ds') : Rewritten u ds ds'
  | datasets {ds ds' : List (Dataset E)}
      (h : List.Forall₂ (Redescribed u) ds ds') : Rewritten u ds ds'
  | trans {ds ds' ds'' : List (Dataset E)} :
      Rewritten u ds ds' → Rewritten u ds' ds'' → Rewritten u ds ds''

theorem Reformatted.sortedFormats_eq (hu : u.Lawful) {formats formats' : List String}
    (h : Reformatted u formats formats')
    (hsupported : ∀ f ∈ sortedFormats u formats, f ∈ supportedFormats) :
    sortedFormats u formats' = sortedFormats u formats := by
  cases h with
  | respelled h =>
      have hplain : ∀ f ∈ formats, Plain (u.toLower (trimSpace f)) := fun f hf =>
        plain_of_supported (hsupported _ (mem_sortedFormats.mpr ⟨f, hf, rfl⟩))
      have hboth := (List.forall₂_and_left formats formats').mpr ⟨hplain, h⟩
      rw [sortedFormats, sortedFormats,
        map_eq_of_forall₂ (hboth.imp fun _ _ hfg => hfg.2.toLower_eq hu hfg.1)]
  | rearranged h =>
      refine Ordered.eq_of_sorted id (sorted_sortedFormats formats')
        (sorted_sortedFormats formats) fun f => ?_
      simp only [mem_sortedFormats, h]

theorem Redescribed.canonical_eq (hu : u.Lawful) {d d' : Dataset E}
    (h : Redescribed u d d') (hvalid : Valid p (canonical u d)) :
    canonical u d' = canonical u d := by
  have hcode := h.code.toLower_eq hu (plain_of_datasetCode hvalid.code)
  have hformats := h.formats.sortedFormats_eq hu
    (canonical_formats (u := u) d ▸ hvalid.supported)
  rw [canonical, canonical, withSortedFormats, withSortedFormats, trimDataset,
    trimDataset, hcode, ← h.title, hformats, ← h.options]

theorem Rewritten.perm_canonical (hu : u.Lawful) {ds ds' : List (Dataset E)}
    (h : Rewritten u ds ds') (hvalid : ∀ c ∈ ds.map (canonical u), Valid p c) :
    (ds.map (canonical u)).Perm (ds'.map (canonical u)) := by
  induction h with
  | perm h => exact h.map _
  | @datasets ds ds' h =>
      have hboth := (List.forall₂_and_left ds ds').mpr
        ⟨fun d hd => hvalid _ (List.mem_map_of_mem hd), h⟩
      rw [map_eq_of_forall₂ (hboth.imp fun _ _ hdd => hdd.2.canonical_eq hu hdd.1)]
  | trans _ _ ih ih' =>
      have hperm := ih hvalid
      exact hperm.trans (ih' fun c hc => hvalid c (hperm.mem_iff.mpr hc))

/-! ## The metadata -/

/-- `encoding/json` encodes the datasets, and decodes what it has encoded. -/
def Json.Decodes (json : Json E) (ds : List (Dataset E)) : Prop :=
  ∃ payload, json.marshal ds = .ok payload ∧ json.unmarshal payload = .ok ds

theorem parse_metadata (hu : u.Lawful) {ds result : List (Dataset E)}
    (h : normalize p u ds = .ok result) (hjson : json.Decodes result) :
    ∃ m, metadata p u json ds = .ok m ∧ parseMetadata p u json m = .ok result := by
  obtain ⟨payload, hmarshal, hunmarshal⟩ := hjson
  have hmetadata : metadata p u json ds =
      .ok (((∅ : AList fun _ : String => String).insert p.providerMetadataKey
        "true").insert p.datasetsMetadataKey payload) := by
    rw [metadata, h]
    simp only [hmarshal]
  refine ⟨_, hmetadata, ?_⟩
  rw [parseMetadata, AList.lookup_insert_ne p.keys_ne, AList.lookup_insert,
    AList.lookup_insert, if_neg (by simp)]
  simp only [Option.getD_some, hunmarshal]
  exact (catalog_of_normalize h).normalize_eq hu

theorem metadata_congr {ds ds' : List (Dataset E)}
    (h : normalize p u ds' = normalize p u ds) :
    metadata p u json ds' = metadata p u json ds := by
  rw [metadata, metadata, h]

/-- What the functions of a package do with datasets that have the result for
their normal form. -/
structure CanonicalMetadata (u : Unicode)
    (normalize : List (Dataset E) → Except GoErr (List (Dataset E)))
    (metadata : List (Dataset E) → Except GoErr (AList fun _ : String => String))
    (parseMetadata :
      (AList fun _ : String => String) → Except GoErr (List (Dataset E)))
    (ds result : List (Dataset E)) : Prop where
  parsed : ∃ m, metadata ds = .ok m ∧ parseMetadata m = .ok result
  again : normalize result = .ok result
  sorted : result.Pairwise fun a b => a.code < b.code
  formats : ∀ d ∈ result, d.formats.Pairwise (· < ·) ∧
    ∀ f ∈ d.formats, f ∈ supportedFormats
  rewritten : ∀ ds', Rewritten u ds ds' →
    normalize ds' = .ok result ∧ metadata ds' = metadata ds

theorem canonicalMetadata (hu : u.Lawful) {ds result : List (Dataset E)}
    (h : normalize p u ds = .ok result) (hjson : json.Decodes result) :
    CanonicalMetadata u (normalize p u) (metadata p u json)
      (parseMetadata p u json) ds result := by
  have hcatalog := catalog_of_normalize h
  refine ⟨parse_metadata hu h hjson, hcatalog.normalize_eq hu, hcatalog.sorted,
    fun d hd => ⟨hcatalog.formats d hd, (hcatalog.valid d hd).supported⟩, ?_⟩
  intro ds' hrewritten
  have hvalid := (normalize_ok_iff.mp h).1.valid
  have h' := normalize_congr h (hrewritten.perm_canonical hu hvalid)
  exact ⟨h', metadata_congr (h'.trans h.symm)⟩

/-- The metadata of imports and of exports: whatever `Normalize` accepts comes
back from it in normal form, and is written in one way. -/
theorem metadata_canonical (hu : u.Lawful) :
    (∀ (json : Json ImportProvider.Options) ds result,
      ImportProvider.normalize u ds = .ok result → json.Decodes result →
      CanonicalMetadata u (ImportProvider.normalize u)
        (ImportProvider.metadata u json) (ImportProvider.parseMetadata u json)
        ds result) ∧
    ∀ (json : Json ExportProvider.Options) ds result,
      ExportProvider.normalize u ds = .ok result → json.Decodes result →
      CanonicalMetadata u (ExportProvider.normalize u)
        (ExportProvider.metadata u json) (ExportProvider.parseMetadata u json)
        ds result := by
  constructor
  · intro json ds result h hjson
    exact canonicalMetadata hu h hjson
  · intro json ds result h hjson
    exact canonicalMetadata hu h hjson

/-! ### Users to import and to export -/

/-- Users as a service may declare them, and as another might. -/
def declared (options : E) : List (Dataset E) :=
  [{ code := "identity.users", title := "Users"
     formats := ["XLSX", "csv", "csv"], options },
   { code := "Identity.Roles ", title := "Roles", formats := ["jsonl"], options }]

def redeclared (options : E) : List (Dataset E) :=
  [{ code := "IDENTITY.USERS", title := " Users"
     formats := ["csv", "XLSX"], options },
   { code := "Identity.Roles", title := "Roles", formats := ["JSONL"], options }]

def users (options : E) : List (Dataset E) :=
  [{ code := "identity.roles", title := "Roles", formats := ["jsonl"], options },
   { code := "identity.users", title := "Users", formats := ["csv", "xlsx"], options }]

/-- `encoding/json`, for these datasets. -/
def usersJson [DecidableEq E] (text : String) (options : E) : Json E where
  marshal ds :=
    if ds = users options then .ok text else .error (.new (bytes "unsupported"))
  unmarshal payload :=
    if payload = text then .ok (users options)
    else .error (.new (bytes "unexpected end of JSON input"))

theorem usersJson_decodes [DecidableEq E] (text : String) (options : E) :
    (usersJson text options).Decodes (users options) :=
  ⟨text, if_pos rfl, if_pos rfl⟩

theorem respelled_upper {s t : String}
    (h : String.ofList (s.toList.map Char.toUpper) = t) : Respelled ascii s t := by
  subst h
  refine .cased ?_
  rw [String.toList_ofList, List.forall₂_map_right_iff]
  exact List.forall₂_same.mpr fun _ _ => .upper .same

theorem rewritten_redeclared (options : E) :
    Rewritten ascii (declared options) (redeclared options).reverse := by
  have hcode : Respelled ascii "identity.users" "IDENTITY.USERS" :=
    respelled_upper (by decide +kernel)
  have htitle : trimSpace "Users" = trimSpace " Users" := by decide +kernel
  have hspaced : trimSpace "Identity.Roles " = trimSpace "Identity.Roles" := by
    decide +kernel
  have hformat : Respelled ascii "jsonl" "JSONL" :=
    respelled_upper (by decide +kernel)
  have hformats : ∀ f, f ∈ ["XLSX", "csv", "csv"] ↔ f ∈ ["csv", "XLSX"] := by
    simp [or_comm]
  refine .trans (.datasets ?_) (.perm (List.reverse_perm _).symm)
  exact .cons ⟨hcode, htitle, .rearranged hformats, rfl⟩
    (.cons ⟨.spaced hspaced, rfl, .respelled (.cons hformat .nil), rfl⟩ .nil)

def importOptions : ImportProvider.Options := ⟨500, true⟩

def exportOptions : ExportProvider.Options := ⟨false⟩

def importJson : Json ImportProvider.Options :=
  usersJson
    ("[\x7b\"code\":\"identity.roles\",\"title\":\"Roles\",\"formats\":[\"jsonl\"]," ++
      "\"max_batch_size\":500,\"supports_dry_run\":true\x7d," ++
      "\x7b\"code\":\"identity.users\",\"title\":\"Users\"," ++
      "\"formats\":[\"csv\",\"xlsx\"]," ++
      "\"max_batch_size\":500,\"supports_dry_run\":true\x7d]")
    importOptions

def exportJson : Json ExportProvider.Options :=
  usersJson
    ("[\x7b\"code\":\"identity.roles\",\"title\":\"Roles\",\"formats\":[\"jsonl\"]," ++
      "\"supports_snapshot\":false\x7d," ++
      "\x7b\"code\":\"identity.users\",\"title\":\"Users\"," ++
      "\"formats\":[\"csv\",\"xlsx\"]," ++
      "\"supports_snapshot\":false\x7d]")
    exportOptions

/-- Two ways to declare the same users. -/
theorem metadata_canonical_users :
    (ImportProvider.normalize ascii (declared importOptions) =
        .ok (users importOptions) ∧
      ImportProvider.normalize ascii (redeclared importOptions).reverse =
        .ok (users importOptions) ∧
      ∃ m, ImportProvider.metadata ascii importJson (declared importOptions) = .ok m ∧
        ImportProvider.parseMetadata ascii importJson m = .ok (users importOptions)) ∧
    ExportProvider.normalize ascii (declared exportOptions) =
        .ok (users exportOptions) ∧
      ExportProvider.normalize ascii (redeclared exportOptions).reverse =
        .ok (users exportOptions) ∧
      ∃ m, ExportProvider.metadata ascii exportJson (declared exportOptions) = .ok m ∧
        ExportProvider.parseMetadata ascii exportJson m =
          .ok (users exportOptions) := by
  have himport : ImportProvider.normalize ascii (declared importOptions) =
      .ok (users importOptions) := by
    decide +kernel
  have hexport : ExportProvider.normalize ascii (declared exportOptions) =
      .ok (users exportOptions) := by
    decide +kernel
  have hcanonical := metadata_canonical ascii_lawful
  have hi := hcanonical.1 importJson _ _ himport (usersJson_decodes _ _)
  have he := hcanonical.2 exportJson _ _ hexport (usersJson_decodes _ _)
  exact ⟨⟨himport, (hi.rewritten _ (rewritten_redeclared _)).1, hi.parsed⟩,
    hexport, (he.rewritten _ (rewritten_redeclared _)).1, he.parsed⟩

end PlatformGo.ProviderMetadata
