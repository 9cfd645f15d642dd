import GardenLinux.Glci.Bucket
import GardenLinux.Glci.ManifestKey

/-!
# Cleaning up the bucket

The garbage collection of `ci/clean.py`: outdated manifests and manifest sets are purged, and
then the objects that no manifest refers to any more.

What is proved here:

* `lookup_purged` — what the two cleaners of manifests leave of the bucket;
* `lookup_cleanOrphanedObjects` — what is left of it when the loose objects are deleted;
* `keepsReferenced_iff` — exactly when every referenced object survives: the logs of single
  manifests are not looked at, so a log is kept only when something else refers to it;
* `keepsReferenced_fails` — a log that is deleted although its manifest is there.
-/

namespace Glci

open GardenFeat

/-! ## Listing -/

def hasPrefix (keyPrefix key : String) : Bool := keyPrefix.toList.isPrefixOf key.toList

/-- The keys that `list_objects_v2` lists for a prefix. -/
def listKeys (bucket : Bucket) (keyPrefix : String) : List String :=
  bucket.keys.filter (hasPrefix keyPrefix)

/-- How the service splits a listing into pages, in whatever order it lists the keys. -/
structure Pager where
  pages : List String → List (List String)
  perm : ∀ keys, (pages keys).flatten.Perm keys
  nonempty : ∀ keys, ∀ page ∈ pages keys, page ≠ []

/-- The loop over the pages: it ends at a page without keys. -/
def enumerateKeys : List (List String) → List String
  | [] => []
  | [] :: _ => []
  | page :: pages => page ++ enumerateKeys pages

/-- `enumerate_releases`. -/
def enumerateReleases (bucketName : String) (bucket : Bucket) (pager : Pager)
    (keyPrefix : String) : Except ModelError (List OnlineReleaseManifest) :=
  gather (fun key => (releaseManifest bucketName bucket key false).map Option.toList)
    (enumerateKeys (pager.pages (listKeys bucket keyPrefix)))

/-- `enumerate_release_sets`. -/
def enumerateReleaseSets (bucketName : String) (bucket : Bucket) (pager : Pager)
    (keyPrefix : String) : Except ModelError (List OnlineReleaseManifestSet) :=
  gather (fun key => (releaseManifestSet bucketName bucket key false).map Option.toList)
    ((enumerateKeys (pager.pages (listKeys bucket keyPrefix))).filter fun key =>
      bucket.lookup key ≠ some .directory)

/-! ## Purging manifests -/

def releaseManifestSetPrefix : String := "meta/sets"

def snapshotSetPrefix : String := releaseManifestSetPrefix ++ "/" ++ "snapshot"

/-- The configured bucket, `dateutil.parser.isoparse` (the microseconds of a date), and the
age at which manifests are outdated. -/
structure CleanConfig where
  s3BucketName : String
  isoparse : String → Except ModelError ℤ
  maxAgeDays : ℤ

def CleanConfig.oldestAllowedDate (config : CleanConfig) (now : ℤ) : ℤ :=
  now - config.maxAgeDays * (24 * 60 * 60 * 1000000)

/-- Whether `purge_if_outdated` of `clean_release_manifest_sets` purges. -/
def CleanConfig.setOutdated (config : CleanConfig) (now : ℤ) (set : OnlineReleaseManifestSet) :
    Except ModelError Bool :=
  match set.manifests with
  | [] => .ok false
  | firstManifest :: _ =>
    (config.isoparse firstManifest.buildTimestamp).map fun buildTs =>
      ¬ buildTs > config.oldestAllowedDate now

/-- Whether `purge_if_outdated` of `clean_single_release_manifests` purges. -/
def CleanConfig.manifestOutdated (config : CleanConfig) (now : ℤ)
    (manifest : OnlineReleaseManifest) : Except ModelError Bool :=
  (config.isoparse manifest.buildTimestamp).map fun buildTs =>
    buildTs < config.oldestAllowedDate now

def deleteObjects (bucket : Bucket) (keys : List String) : Bucket :=
  keys.foldl (fun bucket key => bucket.erase key) bucket

/-- `clean_release_manifest_sets`. -/
def cleanReleaseManifestSets (config : CleanConfig) (now : ℤ) (pager : Pager) (bucket : Bucket) :
    Except ModelError Bucket := do
  let sets ← enumerateReleaseSets config.s3BucketName bucket pager snapshotSetPrefix
  let purged ← gather (fun set => (config.setOutdated now set).map fun outdated =>
    if outdated then [set.s3Key] else []) sets
  pure (deleteObjects bucket purged)

/-- `clean_single_release_manifests`. -/
def cleanSingleReleaseManifests (config : CleanConfig) (now : ℤ) (pager : Pager)
    (bucket : Bucket) : Except ModelError Bucket := do
  let manifests ← enumerateReleases config.s3BucketName bucket pager manifestKeyPrefix
  let purged ← gather (fun manifest => (config.manifestOutdated now manifest).map fun outdated =>
    if outdated then [manifest.s3Key] else []) manifests
  pure (deleteObjects bucket purged)

/-! ## Deleting loose objects -/

/-- `_enumerate_objects_from_single_release_manifests`. -/
def enumerateObjectsFromSingleReleaseManifests (config : CleanConfig) (pager : Pager)
    (bucket : Bucket) : Except ModelError (List S3ReleaseFile) := do
  let manifests ← enumerateReleases config.s3BucketName bucket pager manifestKeyPrefix
  pure (manifests.flatMap (·.paths))

/-- `_enumerate_objects_from_release_manifest_sets`. -/
def enumerateObjectsFromReleaseManifestSets (config : CleanConfig) (pager : Pager)
    (bucket : Bucket) : Except ModelError (List S3ReleaseFile) := do
  let sets ← enumerateReleaseSets config.s3BucketName bucket pager releaseManifestSetPrefix
  pure (sets.flatMap fun set => set.manifests.flatMap (·.paths) ++ set.logs.getD [])

/-- The keys of the files in a bucket. -/
def keysIn (bucketName : String) (files : List S3ReleaseFile) : List String :=
  (files.filter (·.s3BucketName = bucketName)).map (·.s3Key)

/-- The loop over the pages of objects, each of which is cleared of the loose ones. -/
def purgePages (allObjectKeys : List String) : List (List String) → Bucket → Bucket
  | [], bucket => bucket
  | [] :: _, bucket => bucket
  | page :: pages, bucket =>
    purgePages allObjectKeys pages (deleteObjects bucket (page.filter (· ∉ allObjectKeys)))

def objectPrefix : String := "objects"

/-- The pagers of the three listings of `clean_orphaned_objects`. -/
structure OrphanPagers where
  sets : Pager
  singles : Pager
  objects : Pager

/-- `clean_orphaned_objects`. -/
def cleanOrphanedObjects (config : CleanConfig) (pagers : OrphanPagers) (bucket : Bucket) :
    Except ModelError Bucket := do
  let ofSets ← enumerateObjectsFromReleaseManifestSets config pagers.sets bucket
  let ofSingles ← enumerateObjectsFromSingleReleaseManifests config pagers.singles bucket
  let allObjectKeys := keysIn config.s3BucketName (ofSets ++ ofSingles)
  pure (purgePages allObjectKeys (pagers.objects.pages (listKeys bucket objectPrefix)) bucket)

/-! ## The whole clean-up -/

/-- The dates and pagers of one clean-up, and which manifests are purged first. -/
structure CleanRun where
  setsNow : ℤ
  singlesNow : ℤ
  setsPager : Pager
  singlesPager : Pager
  orphanPagers : OrphanPagers
  setsFirst : Bool

/-- Both kinds of manifests are purged. -/
def cleanManifests (config : CleanConfig) (run : CleanRun) (bucket : Bucket) :
    Except ModelError Bucket :=
  if run.setsFirst then do
    let bucket ← cleanReleaseManifestSets config run.setsNow run.setsPager bucket
    cleanSingleReleaseManifests config run.singlesNow run.singlesPager bucket
  else do
    let bucket ← cleanSingleReleaseManifests config run.singlesNow run.singlesPager bucket
    cleanReleaseManifestSets config run.setsNow run.setsPager bucket

def clean (config : CleanConfig) (run : CleanRun) (bucket : Bucket) :
    Except ModelError Bucket := do
  let bucket ← cleanManifests config run bucket
  cleanOrphanedObjects config run.orphanPagers bucket

/-! ## What refers to an object -/

/-- What the source leaves open about the logs of a manifest: the object that a log stored
as a string refers to, and whether the logs of a manifest that is nested in a set count. -/
structure LogReading where
  textKey : String → Option String
  nested : Bool

def logKeys (reading : LogReading) (bucketName : String) : Option Logs → List String
  | none => []
  | some (.file log) => keysIn bucketName [log]
  | some (.text log) => (reading.textKey log).toList

/-- A path of a manifest or of a nested one, or a log of a set, refers to the key; `stands`
says which objects there are. -/
def PathOrSetLog (bucketName : String) (stands : String → S3Object → Prop) (k : String) : Prop :=
  (∃ key m, hasPrefix manifestKeyPrefix key ∧ stands key (.manifest m) ∧
    k ∈ keysIn bucketName m.paths) ∨
  ∃ key s, hasPrefix releaseManifestSetPrefix key ∧ stands key (.manifestSet s) ∧
    k ∈ keysIn bucketName (s.manifests.flatMap (·.paths) ++ s.logs.getD [])

/-- The logs of a manifest refer to the key. -/
def ManifestLog (reading : LogReading) (bucketName : String)
    (stands : String → S3Object → Prop) (k : String) : Prop :=
  (∃ key m, hasPrefix manifestKeyPrefix key ∧ stands key (.manifest m) ∧
    k ∈ logKeys reading bucketName m.logs) ∨
  reading.nested ∧ ∃ key s, hasPrefix releaseManifestSetPrefix key ∧ stands key (.manifestSet s) ∧
    ∃ m ∈ s.manifests, k ∈ logKeys reading bucketName m.logs

def Referenced (reading : LogReading) (bucketName : String) (stands : String → S3Object → Prop)
    (k : String) : Prop :=
  PathOrSetLog bucketName stands k ∨ ManifestLog reading bucketName stands k

/-- Every object that was there and that a manifest of the cleaned bucket refers to is there
unchanged. -/
def KeepsReferenced (reading : LogReading) (bucketName : String) (bucket cleaned : Bucket) :
    Prop :=
  ∀ k ∈ bucket, Referenced reading bucketName (fun key o => cleaned.lookup key = some o) k →
    cleaned.lookup k = bucket.lookup k

def PurgedSet (config : CleanConfig) (now : ℤ) (bucket : Bucket) (key : String) : Prop :=
  hasPrefix snapshotSetPrefix key ∧ ∃ s, bucket.lookup key = some (.manifestSet s) ∧
    config.setOutdated now s = .ok true

def PurgedManifest (config : CleanConfig) (now : ℤ) (bucket : Bucket) (key : String) : Prop :=
  hasPrefix manifestKeyPrefix key ∧ ∃ m, bucket.lookup key = some (.manifest m) ∧
    config.manifestOutdated now m = .ok true

/-- Under the key there is an outdated manifest or an outdated snapshot set. -/
def Purged (config : CleanConfig) (run : CleanRun) (bucket : Bucket) (key : String) : Prop :=
  PurgedSet config run.setsNow bucket key ∨ PurgedManifest config run.singlesNow bucket key

/-- The objects of the bucket but for the outdated manifests and sets. -/
def Survives (config : CleanConfig) (run : CleanRun) (bucket : Bucket) (key : String)
    (o : S3Object) : Prop :=
  bucket.lookup key = some o ∧ ¬ Purged config run bucket key

/-- No surviving manifest refers to an outdated one, and an object that is a log of a
surviving manifest is also among the paths or the set logs. -/
structure Covered (reading : LogReading) (config : CleanConfig) (run : CleanRun)
    (bucket : Bucket) : Prop where
  unpurged : ∀ k ∈ bucket,
    Referenced reading config.s3BucketName (Survives config run bucket) k →
    ¬ Purged config run bucket k
  logs : ∀ k ∈ bucket, hasPrefix objectPrefix k →
    ManifestLog reading config.s3BucketName (Survives config run bucket) k →
    PathOrSetLog config.s3BucketName (Survives config run bucket) k

/-! ## Enumerations -/

variable {bucketName : String} {bucket cleaned : Bucket} {pager : Pager} {keyPrefix : String}

theorem enumerateKeys_eq_flatten {pages : List (List String)} (h : ∀ page ∈ pages, page ≠ []) :
    enumerateKeys pages = pages.flatten := by
  induction pages with
  | nil => rfl
  | cons page pages ih =>
    cases page with
    | nil => exact absurd rfl (h [] (List.mem_cons_self ..))
    | cons key keys =>
      rw [enumerateKeys, List.flatten_cons, ih fun page hp => h page (List.mem_cons_of_mem _ hp)]
      simp

theorem mem_enumerateKeys (pager : Pager) (keys : List String) (key : String) :
    key ∈ enumerateKeys (pager.pages keys) ↔ key ∈ keys := by
  rw [enumerateKeys_eq_flatten (pager.nonempty keys), (pager.perm keys).mem_iff]

theorem mem_listKeys {key : String} :
    key ∈ listKeys bucket keyPrefix ↔ key ∈ bucket ∧ hasPrefix keyPrefix key := by
  rw [listKeys, List.mem_filter, AList.mem_keys]

theorem releaseManifest_ok_iff {key : String} {m : OnlineReleaseManifest} :
    releaseManifest bucketName bucket key false = .ok (some m) ↔
      ∃ document, bucket.lookup key = some (.manifest document) ∧
        m = { document with s3Key := key, s3Bucket := bucketName } := by
  rw [releaseManifest]
  cases bucket.lookup key with
  | none => simp [deserialise]
  | some o => cases o <;> simp [deserialise, eq_comm]

theorem releaseManifestSet_ok_iff {key : String} {s : OnlineReleaseManifestSet} :
    releaseManifestSet bucketName bucket key false = .ok (some s) ↔
      ∃ document, bucket.lookup key = some (.manifestSet document) ∧
        s = { document with s3Key := key, s3Bucket := bucketName } := by
  rw [releaseManifestSet]
  cases bucket.lookup key with
  | none => simp
  | some o => cases o <;> simp [eq_comm]

/-- Reading a list of keys yields what is read under each of them. -/
theorem mem_gather_read {α : Type} {read : String → Except ModelError (Option α)}
    {keys : List String} {xs : List α}
    (h : gather (fun key => (read key).map Option.toList) keys = .ok xs) (x : α) :
    x ∈ xs ↔ ∃ key ∈ keys, read key = .ok (some x) := by
  rw [(of_gather_ok h).2]
  constructor
  · rintro ⟨key, hkey, ys, hys, hx⟩
    obtain ⟨r, hr, rfl⟩ := map_ok_iff.1 hys
    exact ⟨key, hkey, by rw [hr, Option.mem_toList.1 hx]⟩
  · rintro ⟨key, hkey, hx⟩
    exact ⟨key, hkey, [x], map_ok_iff.2 ⟨some x, hx, rfl⟩, List.mem_singleton.2 rfl⟩

theorem mem_enumerateReleases {ms : List OnlineReleaseManifest}
    (h : enumerateReleases bucketName bucket pager keyPrefix = .ok ms) (m : OnlineReleaseManifest) :
    m ∈ ms ↔ ∃ key document, hasPrefix keyPrefix key ∧
      bucket.lookup key = some (.manifest document) ∧
      m = { document with s3Key := key, s3Bucket := bucketName } := by
  rw [mem_gather_read h]
  constructor
  · rintro ⟨key, hkey, hm⟩
    obtain ⟨document, hlookup, rfl⟩ := releaseManifest_ok_iff.1 hm
    exact ⟨key, document, (mem_listKeys.1 ((mem_enumerateKeys ..).1 hkey)).2, hlookup, rfl⟩
  · rintro ⟨key, document, hkey, hlookup, rfl⟩
    have hmem : key ∈ bucket := AList.lookup_isSome.1 (by rw [hlookup]; rfl)
    exact ⟨key, (mem_enumerateKeys ..).2 (mem_listKeys.2 ⟨hmem, hkey⟩),
      releaseManifest_ok_iff.2 ⟨document, hlookup, rfl⟩⟩

theorem mem_enumerateReleaseSets {ss : List OnlineReleaseManifestSet}
    (h : enumerateReleaseSets bucketName bucket pager keyPrefix = .ok ss)
    (s : OnlineReleaseManifestSet) :
    s ∈ ss ↔ ∃ key document, hasPrefix keyPrefix key ∧
      bucket.lookup key = some (.manifestSet document) ∧
      s = { document with s3Key := key, s3Bucket := bucketName } := by
  rw [mem_gather_read h]
  constructor
  · rintro ⟨key, hkey, hs⟩
    obtain ⟨document, hlookup, rfl⟩ := releaseManifestSet_ok_iff.1 hs
    have hlisted := (mem_enumerateKeys ..).1 (List.mem_filter.1 hkey).1
    exact ⟨key, document, (mem_listKeys.1 hlisted).2, hlookup, rfl⟩
  · rintro ⟨key, document, hkey, hlookup, rfl⟩
    have hmem : key ∈ bucket := AList.lookup_isSome.1 (by rw [hlookup]; rfl)
    refine ⟨key, List.mem_filter.2 ⟨(mem_enumerateKeys ..).2 (mem_listKeys.2 ⟨hmem, hkey⟩), ?_⟩,
      releaseManifestSet_ok_iff.2 ⟨document, hlookup, rfl⟩⟩
    simp [hlookup]

/-! ## What is deleted -/

theorem lookup_deleteObjects (bucket : Bucket) (keys : List String) (k : String) :
    (deleteObjects bucket keys).lookup k = if k ∈ keys then none else bucket.lookup k := by
  induction keys generalizing bucket with
  | nil => rfl
  | cons key keys ih =>
    show (deleteObjects (bucket.erase key) keys).lookup k = _
    rw [ih]
    by_cases hk : k = key
    · subst hk
      simp
    · simp [hk, AList.lookup_erase_ne hk]

/-- A bucket without the objects under the keys of a kind. -/
def WithoutKeys (purged : String → Prop) (bucket cleaned : Bucket) : Prop :=
  ∀ k, (purged k → cleaned.lookup k = none) ∧ (¬ purged k → cleaned.lookup k = bucket.lookup k)

theorem withoutKeys_deleteObjects {purged : String → Prop} {keys : List String}
    (h : ∀ k, k ∈ keys ↔ purged k) : WithoutKeys purged bucket (deleteObjects bucket keys) := by
  intro k
  rw [lookup_deleteObjects, ← h]
  exact ⟨fun hk => if_pos hk, fun hk => if_neg hk⟩

theorem lookup_purgePages (allObjectKeys : List String) {pages : List (List String)}
    (h : ∀ page ∈ pages, page ≠ []) (bucket : Bucket) (k : String) :
    (purgePages allObjectKeys pages bucket).lookup k =
      if k ∈ pages.flatten ∧ k ∉ allObjectKeys then none else bucket.lookup k := by
  induction pages generalizing bucket with
  | nil => simp [purgePages]
  | cons page pages ih =>
    cases page with
    | nil => exact absurd rfl (h [] (List.mem_cons_self ..))
    | cons key keys =>
      rw [purgePages, ih fun page hp => h page (List.mem_cons_of_mem _ hp), lookup_deleteObjects]
      · by_cases hlive : k ∈ allObjectKeys
        · simp [hlive]
        · by_cases hpages : k ∈ pages.flatten <;> simp [hlive, hpages]
      · simp

/-- The pages are cleared of what is not referenced. -/
theorem withoutKeys_purgePages (pager : Pager) (allObjectKeys keys : List String)
    (bucket : Bucket) :
    WithoutKeys (fun k => k ∈ keys ∧ k ∉ allObjectKeys) bucket
      (purgePages allObjectKeys (pager.pages keys) bucket) := by
  intro k
  have hlookup := lookup_purgePages allObjectKeys (pager.nonempty keys) bucket k
  simp only [(pager.perm keys).mem_iff] at hlookup
  rw [hlookup]
  exact ⟨fun hk => if_pos hk, fun hk => if_neg hk⟩

/-- The keys of what is outdated are collected. -/
theorem mem_gather_outdated {α : Type} {outdated : α → Except ModelError Bool} {key : α → String}
    {xs : List α} {purged : List String}
    (h : gather (fun x => (outdated x).map fun o => if o then [key x] else []) xs = .ok purged)
    (k : String) : k ∈ purged ↔ ∃ x ∈ xs, outdated x = .ok true ∧ key x = k := by
  rw [(of_gather_ok h).2]
  constructor
  · rintro ⟨x, hx, ys, hys, hk⟩
    obtain ⟨o, ho, rfl⟩ := map_ok_iff.1 hys
    cases o with
    | true => exact ⟨x, hx, ho, (List.mem_singleton.1 hk).symm⟩
    | false => exact absurd hk (by simp)
  · rintro ⟨x, hx, ho, rfl⟩
    exact ⟨x, hx, [key x], map_ok_iff.2 ⟨true, ho, rfl⟩, List.mem_singleton.2 rfl⟩

theorem withoutKeys_cleanSingleReleaseManifests {config : CleanConfig} {now : ℤ}
    (h : cleanSingleReleaseManifests config now pager bucket = .ok cleaned) :
    WithoutKeys (PurgedManifest config now bucket) bucket cleaned := by
  obtain ⟨ms, hms, h⟩ := bind_ok_iff.1 h
  obtain ⟨purged, hpurged, h⟩ := bind_ok_iff.1 h
  obtain rfl := Except.ok.inj h
  refine withoutKeys_deleteObjects fun k => ?_
  rw [mem_gather_outdated hpurged]
  constructor
  · rintro ⟨m, hm, hout, rfl⟩
    obtain ⟨key, document, hkey, hlookup, rfl⟩ := (mem_enumerateReleases hms m).1 hm
    exact ⟨hkey, document, hlookup, hout⟩
  · rintro ⟨hkey, document, hlookup, hout⟩
    exact ⟨_, (mem_enumerateReleases hms _).2 ⟨k, document, hkey, hlookup, rfl⟩, hout, rfl⟩

theorem withoutKeys_cleanReleaseManifestSets {config : CleanConfig} {now : ℤ}
    (h : cleanReleaseManifestSets config now pager bucket = .ok cleaned) :
    WithoutKeys (PurgedSet config now bucket) bucket cleaned := by
  obtain ⟨ss, hss, h⟩ := bind_ok_iff.1 h
  obtain ⟨purged, hpurged, h⟩ := bind_ok_iff.1 h
  obtain rfl := Except.ok.inj h
  refine withoutKeys_deleteObjects fun k => ?_
  rw [mem_gather_outdated hpurged]
  constructor
  · rintro ⟨s, hs, hout, rfl⟩
    obtain ⟨key, document, hkey, hlookup, rfl⟩ := (mem_enumerateReleaseSets hss s).1 hs
    exact ⟨hkey, document, hlookup, hout⟩
  · rintro ⟨hkey, document, hlookup, hout⟩
    exact ⟨_, (mem_enumerateReleaseSets hss _).2 ⟨k, document, hkey, hlookup, rfl⟩, hout, rfl⟩

/-- What is deleted in two rounds, when the second finds the rest as it was. -/
theorem WithoutKeys.trans {p q q' : String → Prop} {between : Bucket}
    (h : WithoutKeys p bucket between) (h' : WithoutKeys q' between cleaned)
    (hq : ∀ k, between.lookup k = bucket.lookup k → (q' k ↔ q k)) :
    WithoutKeys (fun k => p k ∨ q k) bucket cleaned := by
  intro k
  by_cases hp : p k
  · refine ⟨fun _ => ?_, fun hk => absurd (Or.inl hp) hk⟩
    by_cases hq' : q' k
    · exact (h' k).1 hq'
    · rw [(h' k).2 hq', (h k).1 hp]
  · have hk := (h k).2 hp
    refine ⟨fun hpq => (h' k).1 ((hq k hk).2 (hpq.resolve_left hp)), fun hpq => ?_⟩
    rw [(h' k).2 fun hq' => hpq (Or.inr ((hq k hk).1 hq')), hk]

variable {config : CleanConfig} {run : CleanRun}

/-- The two cleaners of manifests purge what is outdated, in either order. -/
theorem withoutKeys_cleanManifests (h : cleanManifests config run bucket = .ok cleaned) :
    WithoutKeys (Purged config run bucket) bucket cleaned := by
  unfold cleanManifests at h
  split at h
  · obtain ⟨between, hbetween, h⟩ := bind_ok_iff.1 h
    refine (withoutKeys_cleanReleaseManifestSets hbetween).trans
      (withoutKeys_cleanSingleReleaseManifests h) fun k hk => ?_
    rw [PurgedManifest, PurgedManifest, hk]
  · obtain ⟨between, hbetween, h⟩ := bind_ok_iff.1 h
    have hpurged := (withoutKeys_cleanSingleReleaseManifests hbetween).trans
      (q := PurgedSet config run.setsNow bucket) (withoutKeys_cleanReleaseManifestSets h)
      fun k hk => by rw [PurgedSet, PurgedSet, hk]
    exact fun k => ⟨fun hk => (hpurged k).1 hk.symm, fun hk => (hpurged k).2 fun h => hk h.symm⟩

/-! ## What is referenced -/

theorem keysIn_append (bucketName : String) (files files' : List S3ReleaseFile) :
    keysIn bucketName (files ++ files') = keysIn bucketName files ++ keysIn bucketName files' := by
  simp [keysIn]

theorem mem_keysIn_append {files files' : List S3ReleaseFile} {k : String} :
    k ∈ keysIn bucketName (files ++ files') ↔
      k ∈ keysIn bucketName files ∨ k ∈ keysIn bucketName files' := by
  rw [keysIn_append, List.mem_append]

theorem mem_keysIn_flatMap {α : Type} {xs : List α} {files : α → List S3ReleaseFile} {k : String} :
    k ∈ keysIn bucketName (xs.flatMap files) ↔ ∃ x ∈ xs, k ∈ keysIn bucketName (files x) := by
  simp only [keysIn, List.filter_flatMap, List.map_flatMap, List.mem_flatMap]

/-- The keys that `clean_orphaned_objects` collects. -/
theorem mem_allObjectKeys {pagers : OrphanPagers} {ofSets ofSingles : List S3ReleaseFile}
    (hsets : enumerateObjectsFromReleaseManifestSets config pagers.sets bucket = .ok ofSets)
    (hsingles :
      enumerateObjectsFromSingleReleaseManifests config pagers.singles bucket = .ok ofSingles)
    (k : String) : k ∈ keysIn config.s3BucketName (ofSets ++ ofSingles) ↔
      PathOrSetLog config.s3BucketName (fun key o => bucket.lookup key = some o) k := by
  obtain ⟨ss, hss, h⟩ := bind_ok_iff.1 hsets
  obtain rfl := Except.ok.inj h
  obtain ⟨ms, hms, h⟩ := bind_ok_iff.1 hsingles
  obtain rfl := Except.ok.inj h
  rw [mem_keysIn_append, mem_keysIn_flatMap, mem_keysIn_flatMap, PathOrSetLog, or_comm]
  refine or_congr ?_ ?_
  · constructor
    · rintro ⟨m, hm, hk⟩
      obtain ⟨key, document, hkey, hlookup, rfl⟩ := (mem_enumerateReleases hms m).1 hm
      exact ⟨key, document, hkey, hlookup, hk⟩
    · rintro ⟨key, document, hkey, hlookup, hk⟩
      exact ⟨_, (mem_enumerateReleases hms _).2 ⟨key, document, hkey, hlookup, rfl⟩, hk⟩
  · constructor
    · rintro ⟨s, hs, hk⟩
      obtain ⟨key, document, hkey, hlookup, rfl⟩ := (mem_enumerateReleaseSets hss s).1 hs
      exact ⟨key, document, hkey, hlookup, hk⟩
    · rintro ⟨key, document, hkey, hlookup, hk⟩
      exact ⟨_, (mem_enumerateReleaseSets hss _).2 ⟨key, document, hkey, hlookup, rfl⟩, hk⟩

/-- Prefixes that differ somewhere are not both prefixes of a key. -/
theorem not_hasPrefix {p q key : String} (hp : hasPrefix p key)
    (hpq : ¬ p.toList <+: q.toList) (hqp : ¬ q.toList <+: p.toList) : ¬ hasPrefix q key := by
  intro hq
  rcases List.prefix_or_prefix_of_prefix (List.isPrefixOf_iff_prefix.1 hp)
    (List.isPrefixOf_iff_prefix.1 hq) with h | h
  · exact hpq h
  · exact hqp h

/-- An object is deleted when it is listed and no path and no log of a set refers to it. -/
theorem withoutKeys_cleanOrphanedObjects {pagers : OrphanPagers}
    (h : cleanOrphanedObjects config pagers bucket = .ok cleaned) :
    WithoutKeys (fun k => hasPrefix objectPrefix k ∧
      ¬ PathOrSetLog config.s3BucketName (fun key o => bucket.lookup key = some o) k)
      bucket cleaned := by
  obtain ⟨ofSets, hsets, h⟩ := bind_ok_iff.1 h
  obtain ⟨ofSingles, hsingles, h⟩ := bind_ok_iff.1 h
  obtain rfl := Except.ok.inj h
  intro k
  obtain ⟨hgone, hkept⟩ := withoutKeys_purgePages pagers.objects
    (keysIn config.s3BucketName (ofSets ++ ofSingles)) (listKeys bucket objectPrefix) bucket k
  simp only [mem_listKeys, mem_allObjectKeys hsets hsingles] at hgone hkept
  constructor
  · rintro ⟨hobject, hloose⟩
    by_cases hk : k ∈ bucket
    · exact hgone ⟨⟨hk, hobject⟩, hloose⟩
    · rw [hkept fun hlisted => hk hlisted.1.1, AList.lookup_eq_none.2 hk]
  · exact fun hk => hkept fun hlisted => hk ⟨hlisted.1.2, hlisted.2⟩

/-! ## What survives -/

section Congr

variable {reading : LogReading} {stands stands' : String → S3Object → Prop}

/-- Which objects refer to a key depends on the objects under the prefixes of manifests. -/
theorem pathOrSetLog_congr (h : ∀ key o, hasPrefix manifestKeyPrefix key ∨
      hasPrefix releaseManifestSetPrefix key → (stands key o ↔ stands' key o)) (k : String) :
    PathOrSetLog bucketName stands k ↔ PathOrSetLog bucketName stands' k := by
  refine or_congr ?_ ?_
  · exact exists_congr fun key => exists_congr fun m => and_congr_right fun hkey =>
      and_congr_left fun _ => h key _ (Or.inl hkey)
  · exact exists_congr fun key => exists_congr fun s => and_congr_right fun hkey =>
      and_congr_left fun _ => h key _ (Or.inr hkey)

theorem manifestLog_congr (h : ∀ key o, hasPrefix manifestKeyPrefix key ∨
      hasPrefix releaseManifestSetPrefix key → (stands key o ↔ stands' key o)) (k : String) :
    ManifestLog reading bucketName stands k ↔ ManifestLog reading bucketName stands' k := by
  refine or_congr ?_ (and_congr_right fun _ => ?_)
  · exact exists_congr fun key => exists_congr fun m => and_congr_right fun hkey =>
      and_congr_left fun _ => h key _ (Or.inl hkey)
  · exact exists_congr fun key => exists_congr fun s => and_congr_right fun hkey =>
      and_congr_left fun _ => h key _ (Or.inr hkey)

end Congr

theorem WithoutKeys.lookup_iff {purged : String → Prop} (h : WithoutKeys purged bucket cleaned)
    (key : String) (o : S3Object) :
    cleaned.lookup key = some o ↔ bucket.lookup key = some o ∧ ¬ purged key := by
  by_cases hp : purged key
  · simp [(h key).1 hp, hp]
  · simp [(h key).2 hp, hp]

/-- A key of a single manifest is not one of a set. -/
theorem not_setPrefix {key : String} (h : hasPrefix manifestKeyPrefix key) :
    ¬ hasPrefix releaseManifestSetPrefix key :=
  not_hasPrefix h (by decide) (by decide)

/-- A key of a manifest is not one of an object. -/
theorem not_objectPrefix {key : String}
    (h : hasPrefix manifestKeyPrefix key ∨ hasPrefix releaseManifestSetPrefix key) :
    ¬ hasPrefix objectPrefix key := by
  rcases h with h | h
  · exact not_hasPrefix h (by decide) (by decide)
  · exact not_hasPrefix h (by decide) (by decide)

/-- Every object that a remaining manifest refers to survives the clean-up exactly when no
remaining manifest refers to an outdated one and the logs of the remaining manifests are
also referred to by a path or by the logs of a set. -/
theorem keepsReferenced_iff (reading : LogReading) (h : clean config run bucket = .ok cleaned) :
    KeepsReferenced reading config.s3BucketName bucket cleaned ↔
      Covered reading config run bucket := by
  obtain ⟨between, hbetween, h⟩ := bind_ok_iff.1 h
  have hpurged := withoutKeys_cleanManifests hbetween
  have hloose := withoutKeys_cleanOrphanedObjects h
  -- the manifests that are left are those that survive
  have hbetween : ∀ key o, between.lookup key = some o ↔ Survives config run bucket key o :=
    hpurged.lookup_iff
  have hcleaned : ∀ key o, hasPrefix manifestKeyPrefix key ∨
      hasPrefix releaseManifestSetPrefix key →
      (cleaned.lookup key = some o ↔ Survives config run bucket key o) := by
    intro key o hkey
    rw [(hloose key).2 fun hdeleted => not_objectPrefix hkey hdeleted.1, hbetween]
  have hlive : ∀ k, PathOrSetLog config.s3BucketName (fun key o => between.lookup key = some o) k ↔
      PathOrSetLog config.s3BucketName (Survives config run bucket) k :=
    pathOrSetLog_congr fun key o _ => hbetween key o
  have href : ∀ k, Referenced reading config.s3BucketName
      (fun key o => cleaned.lookup key = some o) k ↔
      Referenced reading config.s3BucketName (Survives config run bucket) k := fun k =>
    or_congr (pathOrSetLog_congr hcleaned k) (manifestLog_congr hcleaned k)
  constructor
  · intro hkeeps
    -- what is referenced is still there, so it was neither purged nor loose
    have hthere : ∀ k ∈ bucket,
        Referenced reading config.s3BucketName (Survives config run bucket) k →
        ¬ Purged config run bucket k ∧ ¬ (hasPrefix objectPrefix k ∧
          ¬ PathOrSetLog config.s3BucketName (fun key o => between.lookup key = some o) k) := by
      intro k hk hr
      obtain ⟨o, ho⟩ := Option.isSome_iff_exists.1 (AList.lookup_isSome.2 hk)
      have hcleaned := (hkeeps k hk ((href k).2 hr)).trans ho
      obtain ⟨hleft, hnot⟩ := (hloose.lookup_iff k o).1 hcleaned
      exact ⟨((hbetween k o).1 hleft).2, hnot⟩
    refine ⟨fun k hk hr => (hthere k hk hr).1, fun k hk hobject hlog => ?_⟩
    by_contra hno
    exact (hthere k hk (Or.inr hlog)).2 ⟨hobject, fun hpath => hno ((hlive k).1 hpath)⟩
  · intro hcovered k hk hr
    rw [href] at hr
    have hunpurged := hcovered.unpurged k hk hr
    rw [(hloose k).2 fun hdeleted => ?_, (hpurged k).2 hunpurged]
    refine hdeleted.2 ((hlive k).2 ?_)
    rcases hr with hpath | hlog
    · exact hpath
    · exact hcovered.logs k hk hdeleted.1 hlog

/-! ## A log that is lost -/

/-- All keys on one page. -/
def onePage : Pager where
  pages keys := if keys = [] then [] else [keys]
  perm keys := by
    by_cases h : keys = [] <;> simp [h]
  nonempty keys page hpage := by
    by_cases h : keys = []
    · simp [h] at hpage
    · rw [if_neg h] at hpage
      exact List.mem_singleton.1 hpage ▸ h

/-- The manifest of a release with its artifact and the logs of its build. -/
def loggedManifest : OnlineReleaseManifest :=
  { awsRelease ["gardener"] with
    buildTimestamp := "2022-01-24T12:00:00"
    paths := [⟨"rootfs.raw", ".raw", "objects/1f", "gardenlinux"⟩]
    baseImage := none
    publishedImageMetadata := none
    s3Key := ""
    s3Bucket := ""
    testResult := none
    logs := some (.file ⟨"build_log.zip", "build_log.zip", "objects/build_log.zip", "gardenlinux"⟩) }

def loggedBucket : Bucket :=
  ((uploadReleaseManifest ∅ "meta/singles/aws-gardener-576.0-5b1e9f" loggedManifest).insert
    "objects/1f" .data).insert "objects/build_log.zip" .data

def exampleCleanConfig : CleanConfig :=
  ⟨"gardenlinux", fun _ => .ok 1643025600000000, 14⟩

/-- A clean-up on the day after the build. -/
def exampleRun : CleanRun :=
  ⟨1643112000000000, 1643112000000000, onePage, onePage, ⟨onePage, onePage, onePage⟩, true⟩

theorem keepsReferenced_iff_logged :
    KeepsReferenced ⟨some, true⟩ "gardenlinux" loggedBucket (loggedBucket.erase
        "objects/build_log.zip") ↔
      Covered ⟨some, true⟩ exampleCleanConfig exampleRun loggedBucket :=
  keepsReferenced_iff ⟨some, true⟩
    (show clean exampleCleanConfig exampleRun loggedBucket =
      .ok (loggedBucket.erase "objects/build_log.zip") by rfl)

/-- The logs of a manifest are deleted on the day after its build. -/
theorem keepsReferenced_fails :
    ¬ ∀ (reading : LogReading) (config : CleanConfig) (run : CleanRun) (bucket cleaned : Bucket),
      clean config run bucket = .ok cleaned →
      KeepsReferenced reading config.s3BucketName bucket cleaned := by
  intro h
  have hkeeps := h ⟨fun _ => none, false⟩ exampleCleanConfig exampleRun loggedBucket
    (loggedBucket.erase "objects/build_log.zip") rfl
  have hlost := hkeeps "objects/build_log.zip" (by decide +kernel) (Or.inr (Or.inl
    ⟨"meta/singles/aws-gardener-576.0-5b1e9f", loggedManifest, by decide +kernel,
      by decide +kernel, by decide +kernel⟩))
  exact absurd hlost (by decide +kernel)

end Glci
