import GardenLinux.Lib.Paging
import GardenLinux.Glci.Clean

/-!
# Paged enumeration

The loops over `list_objects_v2` of `ci/glci/util.py` and `ci/clean.py`, page by page.  Each
one ends at the first page without keys, also when that page is truncated and carries a
token.

What is proved here:

* `enumerateKeys_eq_met` and `purgePages_eq` — the pages that the loops of the clean-up see;
* `pagesVisited_iff` — exactly when every key is visited once;
* `pagesVisited_fails` — an empty page in the middle hides a manifest.
-/

namespace Glci.Paged

open Paging GardenFeat

/-- A way in which the service lists the keys under a prefix. -/
structure KeyListing (bucket : Bucket) (keyPrefix : String) extends Listing String where
  perm : pages.flatten.Perm (listKeys bucket keyPrefix)

/-! ## The loops -/

section Loops

variable (bucketName : String) {bucket : Bucket} {keyPrefix : String}

/-- `enumerate_releases`.  Absent manifests are not allowed, so that `None` is not among
what it yields. -/
def enumerateReleases (listing : KeyListing bucket keyPrefix) (rounds : ℕ) :
    Run (Option OnlineReleaseManifest) ModelError :=
  pageLoop listing.list (.clientError keyPrefix) notTruncated
    (Run.read fun key => releaseManifest bucketName bucket key false) rounds none

/-- The content type that `head_object` tells is not that of a directory. -/
def noDirectory (bucket : Bucket) (key : String) : Bool := bucket.lookup key ≠ some .directory

/-- `enumerate_release_sets`. -/
def enumerateReleaseSets (listing : KeyListing bucket keyPrefix) (rounds : ℕ) :
    Run (Option OnlineReleaseManifestSet) ModelError :=
  pageLoop listing.list (.clientError keyPrefix) notTruncated
    (fun keys => Run.read (fun key => releaseManifestSet bucketName bucket key false)
      (keys.filter (noDirectory bucket)))
    rounds none

/-- `_enumerate_objects_from_single_release_manifests`. -/
def objectsFromSingles (listing : KeyListing bucket manifestKeyPrefix) (rounds : ℕ) :
    Run S3ReleaseFile ModelError :=
  (enumerateReleases bucketName listing rounds).flatMap fun manifest =>
    manifest.toList.flatMap (·.paths)

/-- `_enumerate_objects_from_release_manifest_sets`. -/
def objectsFromSets (listing : KeyListing bucket releaseManifestSetPrefix) (rounds : ℕ) :
    Run S3ReleaseFile ModelError :=
  (enumerateReleaseSets bucketName listing rounds).flatMap fun manifestSet =>
    manifestSet.toList.flatMap fun set => set.manifests.flatMap (·.paths) ++ set.logs.getD []

/-- A key that was held against the references, and whether it is loose. -/
structure Comparison where
  key : String
  loose : Bool
  deriving DecidableEq, Repr

def compareKey (allObjectKeys : List String) (key : String) : Comparison :=
  ⟨key, key ∉ allObjectKeys⟩

/-- The three listings of `clean_orphaned_objects`. -/
structure OrphanListings (bucket : Bucket) (keyPrefix : String) where
  sets : KeyListing bucket releaseManifestSetPrefix
  singles : KeyListing bucket manifestKeyPrefix
  objects : KeyListing bucket keyPrefix

/-- The comparisons of `clean_orphaned_objects`; the keys that are loose are deleted after
each page. -/
def cleanOrphanedObjects (listings : OrphanListings bucket keyPrefix) (rounds : ℕ) :
    Run Comparison ModelError :=
  ((objectsFromSets bucketName listings.sets rounds).andThen
    (objectsFromSingles bucketName listings.singles rounds)).collect fun allObjects =>
      pageLoop listings.objects.list (.clientError keyPrefix) noToken
        (Run.read fun key => .ok (compareKey (keysIn bucketName allObjects) key)) rounds none

end Loops

/-! ## The pages that are seen -/

theorem enumerateKeys_eq_met (listing : Listing String) :
    enumerateKeys listing.pages = listing.met := by
  rw [Listing.met]
  induction listing.pages with
  | nil => rfl
  | cons page pages ih => cases page <;> simp [enumerateKeys, ih]

/-- The loose keys among those that were compared are deleted. -/
theorem purgePages_eq (listing : Listing String) (allObjectKeys : List String)
    (bucket : Bucket) : purgePages allObjectKeys listing.pages bucket =
      deleteObjects bucket
        (((listing.met.map (compareKey allObjectKeys)).filter (·.loose)).map (·.key)) := by
  have hloose : ∀ keys : List String,
      ((keys.map (compareKey allObjectKeys)).filter (·.loose)).map (·.key) =
        keys.filter (· ∉ allObjectKeys) := by
    intro keys
    simp [List.filter_map, compareKey, Function.comp_def]
  rw [hloose, Listing.met]
  induction listing.pages generalizing bucket with
  | nil => rfl
  | cons page pages ih =>
    cases page with
    | nil => rfl
    | cons key keys =>
      rw [purgePages, ih]
      · rw [List.takeWhile_cons_of_pos (by simp), List.flatten_cons, List.filter_append,
          deleteObjects, deleteObjects, deleteObjects, List.foldl_append]
      · simp

/-! ## Exactly once -/

variable {bucketName : String} {bucket : Bucket} {keyPrefix : String}

theorem met_perm (listing : KeyListing bucket keyPrefix) :
    (listing.met ++ listing.skipped).Perm (listKeys bucket keyPrefix) :=
  listing.met_append_skipped ▸ listing.perm

theorem enumerateReleases_eq (listing : KeyListing bucket keyPrefix) {rounds : ℕ}
    (h : listing.pages.length ≤ rounds) : enumerateReleases bucketName listing rounds =
      Run.read (fun key => releaseManifest bucketName bucket key false) listing.met := by
  rw [enumerateReleases, pageLoop_list tellsLast_notTruncated h, Run.each_read, Listing.met]

theorem enumerateReleaseSets_eq (listing : KeyListing bucket keyPrefix) {rounds : ℕ}
    (h : listing.pages.length ≤ rounds) : enumerateReleaseSets bucketName listing rounds =
      Run.read (fun key => releaseManifestSet bucketName bucket key false)
        (listing.met.filter (noDirectory bucket)) := by
  rw [enumerateReleaseSets, pageLoop_list tellsLast_notTruncated h, Run.each_read_filter,
    Listing.met]

theorem readsManifest_iff (bucketName : String) {key : String} :
    (∃ m, releaseManifest bucketName bucket key false = .ok m) ↔
      ∃ document, bucket.lookup key = some (.manifest document) := by
  rw [releaseManifest]
  cases bucket.lookup key with
  | none => simp [deserialise]
  | some o => cases o <;> simp [deserialise]

theorem readsManifestSet_iff {key : String} :
    (∃ s, releaseManifestSet bucketName bucket key false = .ok s) ↔
      ∃ document, bucket.lookup key = some (.manifestSet document) := by
  rw [releaseManifestSet]
  cases bucket.lookup key with
  | none => simp
  | some o => cases o <;> simp

theorem enumerateReleases_visitsOnce_iff (listing : KeyListing bucket keyPrefix) :
    VisitsOnce (enumerateReleases bucketName listing)
        (fun key => releaseManifest bucketName bucket key false) (listKeys bucket keyPrefix) ↔
      (∀ key ∈ listKeys bucket keyPrefix,
        ∃ document, bucket.lookup key = some (.manifest document)) ∧ listing.skipped = [] := by
  simp only [← readsManifest_iff bucketName]
  exact visitsOnce_iff (fun _ => enumerateReleases_eq listing) (met_perm listing)

theorem enumerateReleaseSets_visitsOnce_iff (listing : KeyListing bucket keyPrefix) :
    VisitsOnce (enumerateReleaseSets bucketName listing)
        (fun key => releaseManifestSet bucketName bucket key false)
        ((listKeys bucket keyPrefix).filter (noDirectory bucket)) ↔
      (∀ key ∈ (listKeys bucket keyPrefix).filter (noDirectory bucket),
        ∃ document, bucket.lookup key = some (.manifestSet document)) ∧
      ∀ key ∈ listing.skipped, bucket.lookup key = some .directory := by
  have hperm := (met_perm listing).filter (noDirectory bucket)
  rw [List.filter_append] at hperm
  rw [visitsOnce_iff (fun _ => enumerateReleaseSets_eq listing) hperm]
  simp [readsManifestSet_iff, List.filter_eq_nil_iff, noDirectory]

/-! ## The references -/

/-- The manifests and sets whose keys the enumerations meet. -/
def Met (listings : OrphanListings bucket keyPrefix) (key : String) (o : S3Object) : Prop :=
  bucket.lookup key = some o ∧ (key ∈ listings.sets.met ∨ key ∈ listings.singles.met)

/-- The keys that the enumerations meet can be read. -/
structure MetReadable (listings : OrphanListings bucket keyPrefix) : Prop where
  sets : ∀ key ∈ listings.sets.met, bucket.lookup key ≠ some .directory →
    ∃ document, bucket.lookup key = some (.manifestSet document)
  singles : ∀ key ∈ listings.singles.met,
    ∃ document, bucket.lookup key = some (.manifest document)

def OrphanListings.references (listings : OrphanListings bucket keyPrefix)
    (bucketName : String) (rounds : ℕ) : Run S3ReleaseFile ModelError :=
  (objectsFromSets bucketName listings.sets rounds).andThen
    (objectsFromSingles bucketName listings.singles rounds)

def OrphanListings.rounds (listings : OrphanListings bucket keyPrefix) : ℕ :=
  listings.sets.pages.length + listings.singles.pages.length + listings.objects.pages.length

theorem hasPrefix_of_met {listing : KeyListing bucket keyPrefix} {key : String}
    (h : key ∈ listing.met) : hasPrefix keyPrefix key :=
  (mem_listKeys.1 ((met_perm listing).mem_iff.1 (List.mem_append_left _ h))).2

variable {listings : OrphanListings bucket keyPrefix} {rounds : ℕ}

theorem references_returned_iff (h : listings.rounds ≤ rounds) {files : List S3ReleaseFile} :
    listings.references bucketName rounds = ⟨files, .returned⟩ ↔
      ∃ (ss : List (Option OnlineReleaseManifestSet)) (ms : List (Option OnlineReleaseManifest)),
        (listings.sets.met.filter (noDirectory bucket)).map
          (fun key => releaseManifestSet bucketName bucket key false) = ss.map .ok ∧
        listings.singles.met.map (fun key => releaseManifest bucketName bucket key false) =
          ms.map .ok ∧
        ss.flatMap (fun manifestSet => manifestSet.toList.flatMap fun set =>
            set.manifests.flatMap (·.paths) ++ set.logs.getD []) ++
          ms.flatMap (fun manifest => manifest.toList.flatMap (·.paths)) = files := by
  rw [OrphanListings.rounds] at h
  rw [OrphanListings.references, Run.andThen_eq_returned_iff, objectsFromSets, objectsFromSingles,
    enumerateReleaseSets_eq _ (by omega), enumerateReleases_eq _ (by omega)]
  simp only [Run.flatMap_eq_returned_iff, Run.read_eq_returned_iff]
  constructor
  · rintro ⟨_, _, ⟨ss, hss, rfl⟩, ⟨ms, hms, rfl⟩, hfiles⟩
    exact ⟨ss, ms, hss, hms, hfiles⟩
  · rintro ⟨ss, ms, hss, hms, hfiles⟩
    exact ⟨_, _, ⟨ss, hss, rfl⟩, ⟨ms, hms, rfl⟩, hfiles⟩

theorem references_return_iff (h : listings.rounds ≤ rounds) :
    (∃ files, listings.references bucketName rounds = ⟨files, .returned⟩) ↔
      MetReadable listings := by
  simp only [references_returned_iff h]
  constructor
  · rintro ⟨_, ss, ms, hss, hms, -⟩
    refine ⟨fun key hkey hfile => ?_, fun key hkey => ?_⟩
    · exact readsManifestSet_iff.1
        (exists_map_ok_iff.1 ⟨ss, hss⟩ key (List.mem_filter.2 ⟨hkey, by simpa [noDirectory]⟩))
    · exact (readsManifest_iff bucketName).1 (exists_map_ok_iff.1 ⟨ms, hms⟩ key hkey)
  · rintro ⟨hsets, hsingles⟩
    have hfiles : ∀ key ∈ listings.sets.met.filter (noDirectory bucket),
        ∃ s, releaseManifestSet bucketName bucket key false = .ok s := by
      intro key hkey
      obtain ⟨hmet, hfile⟩ := List.mem_filter.1 hkey
      exact readsManifestSet_iff.2 (hsets key hmet (by simpa [noDirectory] using hfile))
    obtain ⟨ss, hss⟩ := exists_map_ok_iff.2 hfiles
    obtain ⟨ms, hms⟩ := exists_map_ok_iff.2 fun key hkey =>
      (readsManifest_iff bucketName).2 (hsingles key hkey)
    exact ⟨_, ss, ms, hss, hms, rfl⟩

/-- What is collected are the references of the manifests that are met. -/
theorem mem_references (h : listings.rounds ≤ rounds) {files : List S3ReleaseFile}
    (hfiles : listings.references bucketName rounds = ⟨files, .returned⟩) (k : String) :
    k ∈ keysIn bucketName files ↔ PathOrSetLog bucketName (Met listings) k := by
  obtain ⟨ss, ms, hss, hms, rfl⟩ := (references_returned_iff h).1 hfiles
  rw [mem_keysIn_append, mem_keysIn_flatMap, mem_keysIn_flatMap, PathOrSetLog, or_comm]
  simp only [mem_of_map_ok hss, mem_of_map_ok hms, mem_keysIn_flatMap]
  refine or_congr ?_ ?_
  · constructor
    · rintro ⟨r, ⟨key, hkey, hread⟩, m, hm, hk⟩
      obtain rfl := Option.mem_toList.1 hm
      obtain ⟨document, hlookup, rfl⟩ := releaseManifest_ok_iff.1 hread
      exact ⟨key, document, hasPrefix_of_met hkey, ⟨hlookup, Or.inr hkey⟩, hk⟩
    · rintro ⟨key, document, hprefix, ⟨hlookup, hmet⟩, hk⟩
      have hkey : key ∈ listings.singles.met :=
        hmet.resolve_left fun hset => not_setPrefix hprefix (hasPrefix_of_met hset)
      exact ⟨_, ⟨key, hkey, releaseManifest_ok_iff.2 ⟨document, hlookup, rfl⟩⟩, _,
        Option.mem_toList.2 rfl, hk⟩
  · constructor
    · rintro ⟨r, ⟨key, hkey, hread⟩, s, hs, hk⟩
      obtain rfl := Option.mem_toList.1 hs
      obtain ⟨document, hlookup, rfl⟩ := releaseManifestSet_ok_iff.1 hread
      have hmet := (List.mem_filter.1 hkey).1
      exact ⟨key, document, hasPrefix_of_met hmet, ⟨hlookup, Or.inl hmet⟩, hk⟩
    · rintro ⟨key, document, hprefix, ⟨hlookup, hmet⟩, hk⟩
      have hkey : key ∈ listings.sets.met :=
        hmet.resolve_right fun hsingle => not_setPrefix (hasPrefix_of_met hsingle) hprefix
      exact ⟨_, ⟨key, List.mem_filter.2 ⟨hkey, by simp [noDirectory, hlookup]⟩,
        releaseManifestSet_ok_iff.2 ⟨document, hlookup, rfl⟩⟩, _, Option.mem_toList.2 rfl, hk⟩

/-! ## Comparing with the references -/

theorem cleanOrphanedObjects_returned_iff (h : listings.rounds ≤ rounds)
    {compared : List Comparison} :
    cleanOrphanedObjects bucketName listings rounds = ⟨compared, .returned⟩ ↔
      ∃ files, listings.references bucketName rounds = ⟨files, .returned⟩ ∧
        listings.objects.met.map (compareKey (keysIn bucketName files)) = compared := by
  have hloop : ∀ keys, pageLoop listings.objects.list (ModelError.clientError keyPrefix) noToken
      (Run.read fun key => .ok (compareKey keys key)) rounds none =
        ⟨listings.objects.met.map (compareKey keys), .returned⟩ := by
    intro keys
    rw [pageLoop_list tellsLast_noToken (by rw [OrphanListings.rounds] at h; omega),
      Run.each_read, Run.read_eq_returned_iff, List.map_map]
    rfl
  rw [cleanOrphanedObjects, Run.collect_eq_returned_iff]
  simp [hloop, OrphanListings.references]

/-- The comparisons end, given the rounds that they need; every key is compared once, and
it is loose iff no path and no log of a set refers to it. -/
def ComparesOnce (bucketName : String) (bucket : Bucket) (keys : List String)
    (run : ℕ → Run Comparison ModelError) : Prop :=
  ∃ (needed : ℕ) (compared : List Comparison),
    (∀ rounds ≥ needed, run rounds = ⟨compared, .returned⟩) ∧
    (compared.map (·.key)).Perm keys ∧
    ∀ c ∈ compared, c.loose ↔
      ¬ PathOrSetLog bucketName (fun key o => bucket.lookup key = some o) c.key

theorem pathOrSetLog_of_met {k : String} (h : PathOrSetLog bucketName (Met listings) k) :
    PathOrSetLog bucketName (fun key o => bucket.lookup key = some o) k := by
  rcases h with ⟨key, m, hprefix, hmet, hk⟩ | ⟨key, s, hprefix, hmet, hk⟩
  · exact Or.inl ⟨key, m, hprefix, hmet.1, hk⟩
  · exact Or.inr ⟨key, s, hprefix, hmet.1, hk⟩

theorem cleanOrphanedObjects_comparesOnce_iff (listings : OrphanListings bucket keyPrefix) :
    ComparesOnce bucketName bucket (listKeys bucket keyPrefix)
        (cleanOrphanedObjects bucketName listings) ↔
      MetReadable listings ∧ listings.objects.skipped = [] ∧
      ∀ k ∈ listKeys bucket keyPrefix,
        PathOrSetLog bucketName (fun key o => bucket.lookup key = some o) k →
        PathOrSetLog bucketName (Met listings) k := by
  have hperm := met_perm listings.objects
  constructor
  · rintro ⟨needed, compared, hrun, hkeys, hloose⟩
    have hrounds : listings.rounds ≤ max needed listings.rounds := Nat.le_max_right ..
    obtain ⟨files, hfiles, rfl⟩ :=
      (cleanOrphanedObjects_returned_iff hrounds).1 (hrun _ (Nat.le_max_left ..))
    have hskipped : listings.objects.skipped = [] := by
      have hlength := hperm.length_eq.trans hkeys.length_eq.symm
      simp only [List.length_append, List.length_map] at hlength
      exact List.length_eq_zero_iff.1 (by omega)
    refine ⟨(references_return_iff hrounds).1 ⟨files, hfiles⟩, hskipped, fun k hk href => ?_⟩
    rw [hskipped, List.append_nil] at hperm
    have hc := hloose _ (List.mem_map.2 ⟨k, hperm.mem_iff.2 hk, rfl⟩)
    rw [← mem_references hrounds hfiles]
    by_contra hmem
    exact hc.1 (by simpa [compareKey] using hmem) href
  · rintro ⟨hread, hskipped, hmet⟩
    obtain ⟨files, hfiles⟩ := (references_return_iff le_rfl).2 hread
    refine ⟨listings.rounds, listings.objects.met.map (compareKey (keysIn bucketName files)),
      fun rounds hrounds => (cleanOrphanedObjects_returned_iff hrounds).2 ⟨files, ?_, rfl⟩, ?_, ?_⟩
    · obtain ⟨ss, ms, hss, hms, heq⟩ := (references_returned_iff le_rfl).1 hfiles
      exact (references_returned_iff hrounds).2 ⟨ss, ms, hss, hms, heq⟩
    · rw [hskipped, List.append_nil] at hperm
      simpa [compareKey, Function.comp_def] using hperm
    · intro c hc
      obtain ⟨k, hk, rfl⟩ := List.mem_map.1 hc
      have hlisted := hperm.mem_iff.1 (List.mem_append_left _ hk)
      have href : PathOrSetLog bucketName (Met listings) k ↔
          PathOrSetLog bucketName (fun key o => bucket.lookup key = some o) k :=
        ⟨pathOrSetLog_of_met, hmet k hlisted⟩
      simp [compareKey, mem_references le_rfl hfiles, href]

/-! ## All three -/

/-- Every key is visited once iff the keys can be read, none but directories stand on a page
after the first empty one, and no object is referred to from such a page only. -/
theorem pagesVisited_iff (bucketName : String) (bucket : Bucket) (keyPrefix : String) :
    (∀ listing : KeyListing bucket keyPrefix,
      (VisitsOnce (enumerateReleases bucketName listing)
          (fun key => releaseManifest bucketName bucket key false) (listKeys bucket keyPrefix) ↔
        (∀ key ∈ listKeys bucket keyPrefix,
          ∃ document, bucket.lookup key = some (.manifest document)) ∧ listing.skipped = []) ∧
      (VisitsOnce (enumerateReleaseSets bucketName listing)
          (fun key => releaseManifestSet bucketName bucket key false)
          ((listKeys bucket keyPrefix).filter (noDirectory bucket)) ↔
        (∀ key ∈ (listKeys bucket keyPrefix).filter (noDirectory bucket),
          ∃ document, bucket.lookup key = some (.manifestSet document)) ∧
        ∀ key ∈ listing.skipped, bucket.lookup key = some .directory)) ∧
    ∀ listings : OrphanListings bucket keyPrefix,
      ComparesOnce bucketName bucket (listKeys bucket keyPrefix)
          (cleanOrphanedObjects bucketName listings) ↔
        MetReadable listings ∧ listings.objects.skipped = [] ∧
        ∀ k ∈ listKeys bucket keyPrefix,
          PathOrSetLog bucketName (fun key o => bucket.lookup key = some o) k →
          PathOrSetLog bucketName (Met listings) k :=
  ⟨fun listing => ⟨enumerateReleases_visitsOnce_iff listing,
      enumerateReleaseSets_visitsOnce_iff listing⟩,
    fun listings => cleanOrphanedObjects_comparesOnce_iff listings⟩

/-! ## An empty page in the middle -/

def pageToken (i : ℕ) : String := String.ofList (List.replicate (i + 1) '=')

def twoManifests : Bucket :=
  (uploadReleaseManifest ∅ "meta/singles/aws-576.0-5b1e9f" loggedManifest).insert
    "meta/singles/aws-gardener-576.0-5b1e9f" (.manifest loggedManifest)

/-- The second of three pages is empty. -/
def threePages : KeyListing twoManifests "meta/singles" where
  pages := [["meta/singles/aws-576.0-5b1e9f"], [], ["meta/singles/aws-gardener-576.0-5b1e9f"]]
  pages_ne_nil := by decide
  token := pageToken
  token_injective i j h := by
    have hlength := congrArg (fun t => t.toList.length) h
    simpa [pageToken] using hlength
  token_ne_empty i h := by
    have hlength := congrArg (fun t => t.toList.length) h
    simp [pageToken] at hlength
  perm := by decide

/-- The manifest on the page after an empty one is not found. -/
theorem pagesVisited_fails :
    ¬ VisitsOnce (enumerateReleases "gardenlinux" threePages)
      (fun key => releaseManifest "gardenlinux" twoManifests key false)
      (listKeys twoManifests "meta/singles") := by
  rw [enumerateReleases_visitsOnce_iff]
  exact fun h => absurd h.2 (by decide)

end Glci.Paged
