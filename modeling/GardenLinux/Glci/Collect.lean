import GardenLinux.Glci.OwnKey

/-!
# Uploads next to the clean-up

`upload_results_step` and `clean_orphaned_objects` as processes over one bucket: an upload
stores its artifacts before the manifest that refers to them, the clean-up first reads what
the manifests refer to and then deletes the rest, and nothing keeps the two apart.

What is proved here:

* `mem_listPage` — what a page of a listing and its continuation cover;
* `cleanOrphanedObjects_safe` — the clean-up deletes only what no manifest that it has read
  refers to;
* `publishing_safe` — as long as no upload is under way between the first listing of the
  single manifests and the end of the clean-up, every path of every stored manifest is in
  the bucket, at every moment of every run;
* `publishing_unsafe` — otherwise the artifacts of a build that just succeeded may be gone.
-/

namespace Glci

open GardenFeat Process

/-! ## The archive -/

/-- What uploads and the clean-up ask of the bucket. -/
inductive ArchiveCall
  | object (c : S3Call)
  | headObject (key : String)
  | listObjects (keyPrefix : String) (token : Option String)
  | deleteObjects (keys : List String)

def ArchiveCall.listsSingles : ArchiveCall → Bool
  | .listObjects keyPrefix _ => keyPrefix = manifestKeyPrefix
  | _ => false

/-- A page of `list_objects_v2` with the token of the next one. -/
structure Page where
  keys : List String
  next : Option String

/-- `head_object` tells whether the content type is that of a directory. -/
@[reducible] def archive : Interface where
  Call := ArchiveCall
  Answer
    | .object c => s3.Answer c
    | .headObject _ => Option Bool
    | .listObjects _ _ => Page
    | .deleteObjects _ => Unit

/-- How many keys the service puts on a page: some. -/
structure Paging where
  size : Bucket → String → Option String → ℕ
  pos : ∀ bucket keyPrefix token, 0 < size bucket keyPrefix token

/-- Whether a key follows a continuation token. -/
def afterToken (token : Option String) (key : String) : Bool :=
  match token with
  | none => true
  | some last => last < key

/-- The keys are listed in order, and the token is the last key of the page. -/
def listPage (paging : Paging) (bucket : Bucket) (keyPrefix : String) (token : Option String) :
    Page :=
  let keys := (sortOn id (listKeys bucket keyPrefix)).filter (afterToken token)
  let size := paging.size bucket keyPrefix token
  ⟨keys.take size, if size < keys.length then (keys.take size).getLast? else none⟩

def archiveService (paging : Paging) : Service archive Bucket where
  perform bucket
    | .object c => s3Service.perform bucket c
    | .headObject key => ((bucket.lookup key).map (· = .directory), bucket)
    | .listObjects keyPrefix token => (listPage paging bucket keyPrefix token, bucket)
    | .deleteObjects keys => ((), Glci.deleteObjects bucket keys)

/-- A key that is still to be listed is on the page or on a later one. -/
theorem mem_listPage (paging : Paging) {bucket : Bucket} {keyPrefix key : String}
    {token : Option String} (hmem : key ∈ bucket) (hpre : hasPrefix keyPrefix key)
    (hafter : afterToken token key) :
    key ∈ (listPage paging bucket keyPrefix token).keys ∨
      ∃ last, (listPage paging bucket keyPrefix token).next = some last ∧
        last ∈ (listPage paging bucket keyPrefix token).keys ∧ last < key := by
  unfold listPage
  set keys := (sortOn id (listKeys bucket keyPrefix)).filter (afterToken token) with hkeys
  set size := paging.size bucket keyPrefix token
  have hlisted : key ∈ keys :=
    List.mem_filter.2 ⟨mem_sortOn.2 (mem_listKeys.2 ⟨hmem, hpre⟩), hafter⟩
  have hsorted : keys.Pairwise (· ≤ ·) := (pairwise_sortOn _).filter _
  have hpos : 0 < size := paging.pos ..
  by_cases hpage : key ∈ keys.take size
  · exact Or.inl hpage
  · right
    rw [← List.take_append_drop size keys] at hlisted hsorted
    have hdrop : key ∈ keys.drop size := (List.mem_append.1 hlisted).resolve_left hpage
    have hlt : size < keys.length := by
      by_contra hle
      rw [List.drop_eq_nil_of_le (by omega)] at hdrop
      exact absurd hdrop List.not_mem_nil
    have hne : keys.take size ≠ [] := by
      intro hnil
      have hlen := congrArg List.length hnil
      rw [List.length_take, List.length_nil] at hlen
      omega
    refine ⟨(keys.take size).getLast hne, ?_, List.getLast_mem hne, ?_⟩
    · show (if size < keys.length then _ else none) = _
      rw [if_pos hlt, List.getLast?_eq_some_getLast hne]
    · refine lt_of_le_of_ne ((List.pairwise_append.1 hsorted).2.2 _ (List.getLast_mem hne) _ hdrop) ?_
      intro heq
      exact hpage (heq ▸ List.getLast_mem hne)

/-! ## The clean-up as a process -/

/-- How the clean-up ends before its last line; `unfinished` if it has not come to the last
page of a listing. -/
inductive CollectExit
  | modelError (e : ModelError)
  | unfinished
  deriving DecidableEq

abbrev Collector := ExceptT CollectExit (Process archive)

/-- The order in which the threads of an executor read the keys of a page. -/
structure ReadOrder where
  order : List String → List String
  perm : ∀ keys, (order keys).Perm keys

/-- What `release_manifest_set` makes of the object that it downloaded. -/
def deserialiseSet (bucketName manifestKey : String) :
    Option S3Object → Except ModelError OnlineReleaseManifestSet
  | some (.manifestSet document) => .ok { document with s3Key := manifestKey, s3Bucket := bucketName }
  | some _ => .error (.daciteError manifestKey)
  | none => .error (.clientError manifestKey)

/-- The files that a manifest set refers to. -/
def OnlineReleaseManifestSet.files (set : OnlineReleaseManifestSet) : List S3ReleaseFile :=
  set.manifests.flatMap (·.paths) ++ set.logs.getD []

namespace Collector

def ask (c : ArchiveCall) : Collector (archive.Answer c) :=
  ExceptT.lift (Process.perform (I := archive) c)

def ofModel {α : Type} (r : Except ModelError α) : Collector α :=
  ExceptT.mk (.done (r.mapError .modelError))

/-- The loop over the pages of a listing, up to a number of pages. -/
def forPages (keyPrefix : String) (body : List String → Collector (List S3ReleaseFile)) :
    ℕ → Option String → Collector (List S3ReleaseFile)
  | 0, _ => throw .unfinished
  | pages + 1, token => do
    let page ← ask (.listObjects keyPrefix token)
    if page.keys = [] then pure []
    else do
      let found ← body page.keys
      match page.next with
      | none => pure found
      | some last => do
        let rest ← forPages keyPrefix body pages (some last)
        pure (found ++ rest)

/-- The files that the documents under the keys refer to. -/
def forKeys (read : String → Collector (List S3ReleaseFile)) :
    List String → Collector (List S3ReleaseFile)
  | [] => pure []
  | key :: keys => do
    let files ← read key
    let rest ← forKeys read keys
    pure (files ++ rest)

/-- The paths of the manifest under a key. -/
def manifestPaths (bucketName key : String) : Collector (List S3ReleaseFile) := do
  let object ← ask (.object (.getObject key))
  let manifest ← ofModel (deserialise bucketName key false object)
  pure (manifest.toList.flatMap (·.paths))

def manifestSetFiles (bucketName key : String) : Collector (List S3ReleaseFile) := do
  let object ← ask (.object (.getObject key))
  let set ← ofModel (deserialiseSet bucketName key object)
  pure set.files

/-- The keys that are not directories. -/
def withoutDirectories : List String → Collector (List String)
  | [] => pure []
  | key :: keys => do
    match ← ask (.headObject key) with
    | none => throw (.modelError (.clientError key))
    | some isDirectory => do
      let rest ← withoutDirectories keys
      pure (if isDirectory then rest else key :: rest)

/-- `_enumerate_objects_from_single_release_manifests`. -/
def enumerateObjectsFromSingleReleaseManifests (bucketName : String) (threads : ReadOrder)
    (pages : ℕ) : Collector (List S3ReleaseFile) :=
  forPages manifestKeyPrefix
    (fun keys => forKeys (manifestPaths bucketName) (threads.order keys)) pages none

/-- `_enumerate_objects_from_release_manifest_sets`. -/
def enumerateObjectsFromReleaseManifestSets (bucketName : String) (threads : ReadOrder)
    (pages : ℕ) : Collector (List S3ReleaseFile) :=
  forPages releaseManifestSetPrefix (fun keys => do
    let keys ← withoutDirectories keys
    forKeys (manifestSetFiles bucketName) (threads.order keys)) pages none

/-- `clean_orphaned_objects`. -/
def cleanOrphanedObjects (bucketName : String) (threads : ReadOrder) (pages : ℕ) :
    Collector Unit := do
  let ofSets ← enumerateObjectsFromReleaseManifestSets bucketName threads pages
  let ofSingles ← enumerateObjectsFromSingleReleaseManifests bucketName threads pages
  let allObjectKeys := keysIn bucketName (ofSets ++ ofSingles)
  let _ ← forPages objectPrefix (fun objectKeys => do
    let looseObjectKeys := objectKeys.filter (· ∉ allObjectKeys)
    if looseObjectKeys = [] then pure []
    else do
      ask (.deleteObjects looseObjectKeys)
      pure []) pages none
  pure ()

end Collector

/-! ## What the clean-up has yet to read -/

/-- What is left of a listing: keys of the last page, and what follows a token. -/
structure Ahead where
  pending : List String
  rest : Option (Option String)

namespace Ahead

def start : Ahead := ⟨[], some none⟩

def complete : Ahead := ⟨[], none⟩

/-- What is left when a page has come; the listing ends at a page without keys. -/
def listed (page : Page) : Ahead :=
  ⟨page.keys, if page.keys = [] then none else page.next.map some⟩

def read (ahead : Ahead) (key : String) : Ahead :=
  { ahead with pending := ahead.pending.filter (· ≠ key) }

def Has (ahead : Ahead) (key : String) : Prop :=
  key ∈ ahead.pending ∨ ∃ token, ahead.rest = some token ∧ afterToken token key

theorem has_start (key : String) : start.Has key := Or.inr ⟨none, rfl, rfl⟩

theorem not_has_complete (key : String) : ¬ complete.Has key := by
  rintro (h | ⟨token, h, -⟩)
  · exact List.not_mem_nil h
  · exact nomatch h

@[simp] theorem read_start (key : String) : start.read key = start := rfl

theorem Has.read {ahead : Ahead} {key key' : String} (h : ahead.Has key') (hne : key' ≠ key) :
    (ahead.read key).Has key' := by
  rcases h with h | h
  · exact Or.inl (List.mem_filter.2 ⟨h, by simpa using hne⟩)
  · exact Or.inr h

/-- A page covers what the listing has left. -/
theorem Has.listed {token : Option String} {key keyPrefix : String} {paging : Paging}
    {bucket : Bucket} (h : Has ⟨[], some token⟩ key) (hmem : key ∈ bucket)
    (hpre : hasPrefix keyPrefix key) : (listed (listPage paging bucket keyPrefix token)).Has key := by
  rcases h with h | ⟨token', htoken, hafter⟩
  · exact absurd h List.not_mem_nil
  · obtain rfl := Option.some.inj htoken
    rcases mem_listPage paging hmem hpre hafter with hpage | ⟨last, hnext, hlast, hlt⟩
    · exact Or.inl hpage
    · refine Or.inr ⟨some last, ?_, by simpa [afterToken] using hlt⟩
      show (if _ then none else Option.map some _) = some (some last)
      rw [if_neg (List.ne_nil_of_mem hlast), hnext, Option.map_some]

end Ahead

/-! ## Disciplines -/

/-- What an upload and what the clean-up remember. -/
structure Memory where
  uploaded : List String
  sets : Ahead
  singles : Ahead
  refs : List String

namespace Memory

def start : Memory := ⟨[], .start, .start, []⟩

/-- The clean-up has downloaded an object. -/
def seen (bucketName : String) (m : Memory) (key : String) : Option S3Object → Memory
  | some (.manifest document) =>
    { m with singles := m.singles.read key, refs := m.refs ++ keysIn bucketName document.paths }
  | some (.manifestSet document) =>
    { m with sets := m.sets.read key, refs := m.refs ++ keysIn bucketName document.files }
  | _ => m

/-- A page of manifest sets or of single manifests has come. -/
def listed (m : Memory) (keyPrefix : String) (page : Page) : Memory :=
  if keyPrefix = releaseManifestSetPrefix then { m with sets := .listed page }
  else if keyPrefix = manifestKeyPrefix then { m with singles := .listed page }
  else m

end Memory

/-- The clean-up goes from page to page, and deletes what it has not seen a reference to
once it has read everything. -/
def collecting (bucketName : String) : Discipline archive Memory where
  Allowed
    | _, .object (.getObject _) => True
    | _, .object (.putObject _ _) => False
    | _, .headObject _ => True
    | m, .listObjects keyPrefix token =>
      (keyPrefix = releaseManifestSetPrefix → m.sets = ⟨[], some token⟩) ∧
        (keyPrefix = manifestKeyPrefix → m.singles = ⟨[], some token⟩)
    | m, .deleteObjects keys => m.sets = .complete ∧ m.singles = .complete ∧ ∀ key ∈ keys, key ∉ m.refs
  update
    | m, .object (.getObject key), object => m.seen bucketName key object
    | m, .object (.putObject _ _), _ => m
    | m, .headObject key, isDirectory =>
      if isDirectory = some true then { m with sets := m.sets.read key } else m
    | m, .listObjects keyPrefix _, page => m.listed keyPrefix page
    | m, .deleteObjects _, _ => m

/-- An upload as a process over the archive. -/
def publishingArchive (config : Config) (bucketName : String) (args : UploadArgs) :
    Discipline archive Memory where
  Allowed
    | m, .object c => (publishing config bucketName args).Allowed m.uploaded c
    | _, _ => False
  update
    | m, .object c, r =>
      { m with uploaded := (publishing config bucketName args).update m.uploaded c r }
    | m, _, _ => m

section Follows

variable {bucketName : String} {refs : List String}

theorem Collector.ofModel_safe {α : Type} {m : Memory} {r : Except ModelError α} :
    Safe (collecting bucketName) (fun m' a => m' = m ∧ r = .ok a) (Collector.ofModel r) m := by
  refine safe_mk fun a ha => ⟨rfl, ?_⟩
  cases r with
  | error e => exact nomatch ha
  | ok b => exact congrArg Except.ok (Except.ok.inj ha)

/-- The loop over the pages finds the references of all that is listed, when the body does
so for what is on a page; `place` is the memory with what is left of the listing. -/
theorem Collector.forPages_safe (place : Ahead → List String → Memory) {keyPrefix : String}
    {body : List String → Collector (List S3ReleaseFile)}
    (hallowed : ∀ token refs,
      (collecting bucketName).Allowed (place ⟨[], some token⟩ refs) (.listObjects keyPrefix token))
    (hlisted : ∀ token refs page,
      (place ⟨[], some token⟩ refs).listed keyPrefix page = place (.listed page) refs)
    (hbody : ∀ keys rest refs, Safe (collecting bucketName)
      (fun m found => m = place ⟨[], rest⟩ (refs ++ keysIn bucketName found)) (body keys)
      (place ⟨keys, rest⟩ refs)) (refs : List String) (pages : ℕ) (token : Option String) :
    Safe (collecting bucketName)
      (fun m found => m = place .complete (refs ++ keysIn bucketName found))
      (Collector.forPages keyPrefix body pages token) (place ⟨[], some token⟩ refs) := by
  induction pages generalizing token refs with
  | zero => exact safe_throw _
  | succ pages ih =>
    refine safe_bind (Q := fun m page => m = place (.listed page) refs)
      (safe_perform (I := archive) (c := .listObjects keyPrefix token) (hallowed token refs)
        fun page => hlisted token refs page) fun m page hm => ?_
    subst hm
    split
    · next hkeys =>
      refine safe_pure ?_
      rw [Ahead.listed, if_pos hkeys, hkeys]
      simp [keysIn, Ahead.complete]
    · next hkeys =>
      rw [Ahead.listed, if_neg hkeys]
      refine safe_bind (hbody page.keys _ refs) fun m found hm => ?_
      subst hm
      split
      · next hnext =>
        rw [hnext]
        exact safe_pure rfl
      · next last hnext =>
        rw [hnext]
        refine safe_bind (ih _ (some last)) fun m rest hm => safe_pure ?_
        rw [hm, List.append_assoc, ← keysIn_append]

/-- Reading keys takes them from what is left and adds what they refer to. -/
theorem Collector.forKeys_safe (place : Ahead → List String → Memory)
    {read : String → Collector (List S3ReleaseFile)}
    (hread : ∀ ahead refs key, Safe (collecting bucketName)
      (fun m files => m = place (ahead.read key) (refs ++ keysIn bucketName files)) (read key)
      (place ahead refs)) (keys : List String) (pending : List String)
    (rest : Option (Option String)) (hpending : ∀ key ∈ pending, key ∈ keys) :
    Safe (collecting bucketName)
      (fun m files => m = place ⟨[], rest⟩ (refs ++ keysIn bucketName files))
      (Collector.forKeys read keys) (place ⟨pending, rest⟩ refs) := by
  induction keys generalizing pending refs with
  | nil =>
    have hnil : pending = [] := List.eq_nil_iff_forall_not_mem.2 fun key hkey =>
      List.not_mem_nil (hpending key hkey)
    refine safe_pure ?_
    simp [hnil, keysIn]
  | cons key keys ih =>
    refine safe_bind (hread _ refs key) fun m files hm => ?_
    subst hm
    refine safe_bind (ih (pending.filter (· ≠ key)) fun k hk => ?_) fun m found hm => safe_pure ?_
    · obtain ⟨hmem, hne⟩ := List.mem_filter.1 hk
      exact (List.mem_cons.1 (hpending k hmem)).resolve_left (by simpa using hne)
    · rw [hm, List.append_assoc, ← keysIn_append]

theorem Collector.manifestPaths_safe (ahead : Ahead) (key : String) :
    Safe (collecting bucketName)
      (fun m files => m = ⟨[], .complete, ahead.read key, refs ++ keysIn bucketName files⟩)
      (Collector.manifestPaths bucketName key) ⟨[], .complete, ahead, refs⟩ := by
  refine safe_bind (Q := fun m object =>
    m = (Memory.mk [] .complete ahead refs).seen bucketName key object)
    (safe_perform (I := archive) (c := .object (.getObject key)) trivial fun object => rfl)
    fun m object hm => ?_
  refine safe_bind Collector.ofModel_safe fun m' manifest hm' => safe_pure ?_
  obtain ⟨rfl, hread⟩ := hm'
  subst hm
  cases object with
  | none => exact nomatch hread
  | some object =>
    cases object with
    | manifest document =>
      obtain rfl := Except.ok.inj hread
      simp [Memory.seen]
    | manifestSet document => exact nomatch hread
    | directory => exact nomatch hread
    | data => exact nomatch hread

theorem Collector.manifestSetFiles_safe (ahead : Ahead) (key : String) :
    Safe (collecting bucketName)
      (fun m files => m = ⟨[], ahead.read key, .start, refs ++ keysIn bucketName files⟩)
      (Collector.manifestSetFiles bucketName key) ⟨[], ahead, .start, refs⟩ := by
  refine safe_bind (Q := fun m object =>
    m = (Memory.mk [] ahead .start refs).seen bucketName key object)
    (safe_perform (I := archive) (c := .object (.getObject key)) trivial fun object => rfl)
    fun m object hm => ?_
  refine safe_bind Collector.ofModel_safe fun m' set hm' => safe_pure ?_
  obtain ⟨rfl, hread⟩ := hm'
  subst hm
  cases object with
  | none => exact nomatch hread
  | some object =>
    cases object with
    | manifest document => exact nomatch hread
    | manifestSet document =>
      obtain rfl := Except.ok.inj hread
      rfl
    | directory => exact nomatch hread
    | data => exact nomatch hread

/-- What `head_object` tells to be a directory is not left any more. -/
theorem Collector.withoutDirectories_safe (keys pending : List String)
    (rest : Option (Option String)) :
    Safe (collecting bucketName)
      (fun m kept => ∃ pending', m = ⟨[], ⟨pending', rest⟩, .start, refs⟩ ∧
        ∀ key ∈ pending', key ∈ pending ∧ (key ∈ keys → key ∈ kept))
      (Collector.withoutDirectories keys) ⟨[], ⟨pending, rest⟩, .start, refs⟩ := by
  induction keys generalizing pending with
  | nil => exact safe_pure ⟨pending, rfl, fun key hkey => ⟨hkey, id⟩⟩
  | cons key keys ih =>
    refine safe_bind (Q := fun m isDirectory => m =
      ⟨[], ⟨if isDirectory = some true then pending.filter (· ≠ key) else pending, rest⟩,
        .start, refs⟩)
      (safe_perform (I := archive) (c := .headObject key) trivial fun isDirectory => ?_)
      fun m isDirectory hm => ?_
    · show (if isDirectory = some true then _ else _) = _
      split <;> rfl
    · subst hm
      cases isDirectory with
      | none => exact safe_throw _
      | some isDirectory =>
        refine safe_bind (ih _) fun m kept hm => safe_pure ?_
        obtain ⟨pending', rfl, hpending⟩ := hm
        refine ⟨pending', rfl, fun k hk => ?_⟩
        obtain ⟨hmem, hkept⟩ := hpending k hk
        cases isDirectory with
        | true =>
          obtain ⟨hmem, hne⟩ := List.mem_filter.1 hmem
          refine ⟨hmem, fun hkeys => hkept ?_⟩
          exact (List.mem_cons.1 hkeys).resolve_left (by simpa using hne)
        | false =>
          refine ⟨by simpa using hmem, fun hkeys => ?_⟩
          rcases List.mem_cons.1 hkeys with rfl | hkeys
          · exact List.mem_cons_self ..
          · exact List.mem_cons_of_mem _ (hkept hkeys)

/-- The clean-up follows its discipline. -/
theorem cleanOrphanedObjects_safe (threads : ReadOrder) (pages : ℕ) :
    Safe (collecting bucketName) (fun _ _ => True)
      (Collector.cleanOrphanedObjects bucketName threads pages) .start := by
  refine safe_bind (Collector.forPages_safe
    (fun ahead refs => ⟨[], ahead, .start, refs⟩)
    (fun token refs => ⟨fun _ => rfl, fun h => absurd h (by decide)⟩) (fun _ _ _ => rfl)
    (fun keys rest refs => ?_) [] pages none) fun m ofSets hm => ?_
  · refine safe_bind (Collector.withoutDirectories_safe keys keys rest) fun m kept hm => ?_
    obtain ⟨pending, rfl, hpending⟩ := hm
    refine Collector.forKeys_safe (fun ahead refs => ⟨[], ahead, .start, refs⟩)
      (fun ahead refs key => Collector.manifestSetFiles_safe ahead key) _ pending rest
      fun key hkey => ?_
    obtain ⟨hkeys, hkept⟩ := hpending key hkey
    exact (threads.perm _).mem_iff.2 (hkept hkeys)
  subst hm
  refine safe_bind (Collector.forPages_safe
    (fun ahead refs => ⟨[], .complete, ahead, refs⟩)
    (fun token refs => ⟨fun h => absurd h (by decide), fun _ => rfl⟩) (fun _ _ _ => rfl)
    (fun keys rest refs => ?_) _ pages none) fun m ofSingles hm => ?_
  · exact Collector.forKeys_safe (fun ahead refs => ⟨[], .complete, ahead, refs⟩)
      (fun ahead refs key => Collector.manifestPaths_safe ahead key) _ keys rest
      fun key hkey => (threads.perm keys).mem_iff.2 hkey
  subst hm
  rw [List.nil_append, ← keysIn_append]
  refine safe_bind (Collector.forPages_safe
    (fun _ _ => ⟨[], .complete, .complete, keysIn bucketName (ofSets ++ ofSingles)⟩)
    (fun token refs => ⟨fun h => absurd h (by decide), fun h => absurd h (by decide)⟩)
    (fun _ _ _ => rfl) (fun keys rest refs => ?_) [] pages none) fun _ _ _ => safe_pure trivial
  dsimp only
  split
  · exact safe_pure rfl
  · refine safe_bind (Q := fun m _ =>
      m = ⟨[], .complete, .complete, keysIn bucketName (ofSets ++ ofSingles)⟩)
      (safe_perform (I := archive) (c := .deleteObjects _) ⟨rfl, rfl, fun key hkey => ?_⟩
        fun _ => rfl) fun m _ hm => safe_pure hm
    simpa using (List.mem_filter.1 hkey).2

end Follows

/-! ## Uploads and the clean-up together -/

inductive Outcome
  | published (r : Except Exit Unit)
  | collected (r : Except CollectExit Unit)

section System

variable {ι : Type} {config : Config} {bucketName : String} {uploads : ι → UploadArgs}

/-- A step that makes its calls to the archive. -/
def overArchive {α : Type} (p : Process s3 α) : Process archive α :=
  p.translate ArchiveCall.object fun _ r => r

/-- The uploads and, as the client without a name, the clean-up. -/
def archiveClients (config : Config) (bucketName : String) (threads : ReadOrder) (pages : ℕ)
    (uploads : ι → UploadArgs) : Option ι → Process archive Outcome
  | none =>
    (Collector.cleanOrphanedObjects bucketName threads pages).run.bind fun r => .done (.collected r)
  | some i =>
    (overArchive (uploadResultsStep config bucketName (uploads i)).run).bind
      fun r => .done (.published r)

def archiveDiscipline (config : Config) (bucketName : String) (uploads : ι → UploadArgs) :
    Option ι → Discipline archive Memory
  | none => collecting bucketName
  | some i => publishingArchive config bucketName (uploads i)

theorem archiveClients_follow (threads : ReadOrder) (pages : ℕ) (client : Option ι) :
    (archiveClients config bucketName threads pages uploads client).Follows
      (archiveDiscipline config bucketName uploads client) (fun _ _ => True) .start := by
  cases client with
  | none =>
    refine follows_bind (cleanOrphanedObjects_safe threads pages) fun _ _ _ => ?_
    trivial
  | some i =>
    have hupload : (overArchive (uploadResultsStep config bucketName (uploads i)).run).Follows
        (publishingArchive config bucketName (uploads i)) _ .start :=
      follows_translate (D := publishing config bucketName (uploads i)) Memory.uploaded
        (fun _ _ h => h) (fun _ _ _ => rfl) uploadResultsStep_safe
    refine follows_bind hupload fun _ _ _ => ?_
    trivial

variable [DecidableEq ι]

/-- A run of the uploads and the clean-up on one bucket. -/
def publishAndCollect (paging : Paging) (config : Config) (bucketName : String)
    (threads : ReadOrder) (pages : ℕ) (uploads : ι → UploadArgs) (bucket : Bucket)
    (schedule : List (Option ι)) : System archive Bucket (Option ι) Outcome :=
  System.run (archiveService paging)
    (System.start bucket (archiveClients config bucketName threads pages uploads)) schedule

/-- An upload has begun and has not come to its end. -/
def Publishing (s : System archive Bucket (Option ι) Outcome) : Prop :=
  ∃ i, (∃ e ∈ s.history, e.client = some i) ∧ ¬ (s.processes (some i)).finished

/-- The clean-up has begun to list the single manifests and has not come to its end. -/
def Collecting (s : System archive Bucket (Option ι) Outcome) : Prop :=
  (∃ e ∈ s.history, e.client = none ∧ e.call.listsSingles) ∧ ¬ (s.processes none).finished

/-- Every path of every stored manifest, also of those in sets, is in the bucket. -/
structure PathsPresent (bucketName : String) (bucket : Bucket) : Prop where
  singles : ∀ key document, hasPrefix manifestKeyPrefix key →
    bucket.lookup key = some (.manifest document) →
    ∀ k ∈ keysIn bucketName document.paths, k ∈ bucket
  sets : ∀ key document, hasPrefix releaseManifestSetPrefix key →
    bucket.lookup key = some (.manifestSet document) →
    ∀ k ∈ keysIn bucketName (document.manifests.flatMap (·.paths)), k ∈ bucket

/-- What the clean-up has read refers to the paths of every manifest, except for those it has
yet to read. -/
structure Covers (bucketName : String) (m : Memory) (bucket : Bucket) : Prop where
  singles : ∀ key document, hasPrefix manifestKeyPrefix key →
    bucket.lookup key = some (.manifest document) →
    m.singles.Has key ∨ ∀ k ∈ keysIn bucketName document.paths, k ∈ m.refs
  sets : ∀ key document, hasPrefix releaseManifestSetPrefix key →
    bucket.lookup key = some (.manifestSet document) →
    m.sets.Has key ∨ ∀ k ∈ keysIn bucketName document.files, k ∈ m.refs

/-- What a client remembers of the run. -/
def remembers (config : Config) (bucketName : String) (uploads : ι → UploadArgs)
    (client : Option ι) (s : System archive Bucket (Option ι) Outcome) : Memory :=
  System.memory (archiveDiscipline config bucketName uploads client) .start client s.history

/-- The invariant of the runs. -/
structure Intact (config : Config) (bucketName : String) (uploads : ι → UploadArgs)
    (s : System archive Bucket (Option ι) Outcome) : Prop where
  present : PathsPresent bucketName s.store
  uploaded : ∀ i, ¬ (s.processes (some i)).finished →
    ∀ k ∈ (remembers config bucketName uploads (some i) s).uploaded, k ∈ s.store
  covered : ¬ (s.processes none).finished →
    Covers bucketName (remembers config bucketName uploads none s) s.store

/-! ### Documents that stay -/

variable {bucket bucket' : Bucket} {m : Memory} {key : String}

/-- The documents under the prefixes of manifests are among those of another bucket. -/
def DocumentsOf (bucket bucket' : Bucket) : Prop :=
  ∀ key object, hasPrefix manifestKeyPrefix key ∨ hasPrefix releaseManifestSetPrefix key →
    bucket'.lookup key = some object → bucket.lookup key = some object

theorem PathsPresent.of_documents (h : PathsPresent bucketName bucket)
    (hdocuments : DocumentsOf bucket bucket') (hkeys : ∀ k ∈ bucket, k ∈ bucket') :
    PathsPresent bucketName bucket' where
  singles key document hpre hlookup k hk :=
    hkeys k (h.singles key document hpre (hdocuments key _ (Or.inl hpre) hlookup) k hk)
  sets key document hpre hlookup k hk :=
    hkeys k (h.sets key document hpre (hdocuments key _ (Or.inr hpre) hlookup) k hk)

theorem Covers.of_documents (h : Covers bucketName m bucket)
    (hdocuments : DocumentsOf bucket bucket') : Covers bucketName m bucket' where
  singles key document hpre hlookup :=
    h.singles key document hpre (hdocuments key _ (Or.inl hpre) hlookup)
  sets key document hpre hlookup :=
    h.sets key document hpre (hdocuments key _ (Or.inr hpre) hlookup)

theorem documentsOf_insert_data (sha1Digest : String) :
    DocumentsOf bucket (bucket.insert (uploadKey sha1Digest) .data) := by
  intro key object hpre hlookup
  have hne : key ≠ uploadKey sha1Digest := by
    rintro rfl
    exact not_objectPrefix hpre (hasPrefix_uploadKey sha1Digest)
  rwa [AList.lookup_insert_ne hne] at hlookup

theorem documentsOf_deleteObjects (keys : List String) :
    DocumentsOf bucket (deleteObjects bucket keys) := by
  intro key object _ hlookup
  rw [lookup_deleteObjects] at hlookup
  split at hlookup
  · exact nomatch hlookup
  · exact hlookup

theorem mem_insert_of_mem {k key : String} {object : S3Object} (h : k ∈ bucket) :
    k ∈ bucket.insert key object :=
  (AList.mem_insert _).2 (Or.inr h)

/-! ### What the clean-up reads -/

theorem Covers.start (bucket : Bucket) : Covers bucketName .start bucket where
  singles key _ _ _ := Or.inl (Ahead.has_start key)
  sets key _ _ _ := Or.inl (Ahead.has_start key)

/-- A document that has been read counts as seen. -/
theorem Covers.seen (h : Covers bucketName m bucket) (key : String) :
    Covers bucketName (m.seen bucketName key (bucket.lookup key)) bucket := by
  cases hlookup : bucket.lookup key with
  | none => exact h
  | some object =>
    cases object with
    | directory => exact h
    | data => exact h
    | manifest document =>
      refine ⟨fun key' document' hpre hlookup' => ?_, fun key' document' hpre hlookup' => ?_⟩
      · by_cases hkey : key' = key
        · subst hkey
          obtain rfl := S3Object.manifest.inj (Option.some.inj (hlookup'.symm.trans hlookup))
          exact Or.inr fun k hk => List.mem_append_right _ hk
        · refine (h.singles key' document' hpre hlookup').imp (fun hhas => hhas.read hkey) ?_
          exact fun hrefs k hk => List.mem_append_left _ (hrefs k hk)
      · refine (h.sets key' document' hpre hlookup').imp id ?_
        exact fun hrefs k hk => List.mem_append_left _ (hrefs k hk)
    | manifestSet document =>
      refine ⟨fun key' document' hpre hlookup' => ?_, fun key' document' hpre hlookup' => ?_⟩
      · refine (h.singles key' document' hpre hlookup').imp id ?_
        exact fun hrefs k hk => List.mem_append_left _ (hrefs k hk)
      · by_cases hkey : key' = key
        · subst hkey
          obtain rfl := S3Object.manifestSet.inj (Option.some.inj (hlookup'.symm.trans hlookup))
          exact Or.inr fun k hk => List.mem_append_right _ hk
        · refine (h.sets key' document' hpre hlookup').imp (fun hhas => hhas.read hkey) ?_
          exact fun hrefs k hk => List.mem_append_left _ (hrefs k hk)

/-- A directory is not a manifest set. -/
theorem Covers.head (h : Covers bucketName m bucket) (key : String)
    (hdirectory : bucket.lookup key = some .directory) :
    Covers bucketName { m with sets := m.sets.read key } bucket where
  singles := h.singles
  sets key' document hpre hlookup := by
    have hne : key' ≠ key := by
      rintro rfl
      rw [hdirectory] at hlookup
      exact nomatch hlookup
    exact (h.sets key' document hpre hlookup).imp (fun hhas => hhas.read hne) id

/-- A page covers what its listing had left. -/
theorem Covers.listed {paging : Paging} {keyPrefix : String} {token : Option String}
    (h : Covers bucketName m bucket)
    (hallowed : (collecting bucketName).Allowed m (.listObjects keyPrefix token)) :
    Covers bucketName (m.listed keyPrefix (listPage paging bucket keyPrefix token)) bucket := by
  have hmem : ∀ {key object}, bucket.lookup key = some object → key ∈ bucket := fun hlookup =>
    AList.lookup_isSome.1 (by rw [hlookup]; rfl)
  unfold Memory.listed
  split
  · next heq =>
    subst heq
    have hsets := hallowed.1 rfl
    refine ⟨h.singles, fun key document hpre hlookup => ?_⟩
    refine (h.sets key document hpre hlookup).imp (fun hhas => ?_) id
    rw [hsets] at hhas
    exact hhas.listed (hmem hlookup) hpre
  · split
    · next heq =>
      subst heq
      have hsingles := hallowed.2 rfl
      refine ⟨fun key document hpre hlookup => ?_, h.sets⟩
      refine (h.singles key document hpre hlookup).imp (fun hhas => ?_) id
      rw [hsingles] at hhas
      exact hhas.listed (hmem hlookup) hpre
    · exact h

/-- When nothing is left to be read, every path has been seen. -/
theorem PathsPresent.deleteObjects {keys : List String} (h : PathsPresent bucketName bucket)
    (hcovers : Covers bucketName m bucket)
    (hallowed : (collecting bucketName).Allowed m (.deleteObjects keys)) :
    PathsPresent bucketName (Glci.deleteObjects bucket keys) := by
  obtain ⟨hsets, hsingles, hloose⟩ := hallowed
  have hkept : ∀ k, k ∈ bucket → k ∈ m.refs → k ∈ Glci.deleteObjects bucket keys := by
    intro k hk hrefs
    rw [← AList.lookup_isSome, lookup_deleteObjects, if_neg fun hmem => hloose k hmem hrefs]
    exact AList.lookup_isSome.2 hk
  refine ⟨fun key document hpre hlookup k hk => ?_, fun key document hpre hlookup k hk => ?_⟩
  · have hold := documentsOf_deleteObjects keys key _ (Or.inl hpre) hlookup
    refine hkept k (h.singles key document hpre hold k hk) ?_
    have hcovered := hcovers.singles key document hpre hold
    rw [hsingles] at hcovered
    exact hcovered.resolve_left (Ahead.not_has_complete key) k hk
  · have hold := documentsOf_deleteObjects keys key _ (Or.inr hpre) hlookup
    refine hkept k (h.sets key document hpre hold k hk) ?_
    have hcovered := hcovers.sets key document hpre hold
    rw [hsets] at hcovered
    refine hcovered.resolve_left (Ahead.not_has_complete key) k ?_
    exact mem_keysIn_append.2 (Or.inl hk)

/-! ### The invariant along a run -/

variable {s : System archive Bucket (Option ι) Outcome} {paging : Paging}

/-- Before its first call a client remembers nothing. -/
theorem remembers_start {client : Option ι} (h : ∀ e ∈ s.history, e.client ≠ client) :
    remembers config bucketName uploads client s = .start :=
  System.memory_eq_start h

/-- The listing of the single manifests starts with its first page. -/
theorem remembers_singles (h : ¬ ∃ e ∈ s.history, e.client = none ∧ e.call.listsSingles) :
    (remembers config bucketName uploads none s).singles = .start := by
  refine System.memory_induction (P := fun m : Memory => m.singles = .start) rfl
    fun e he hclient m hm => ?_
  obtain ⟨client, call, answer⟩ := e
  obtain rfl : client = none := hclient
  cases call with
  | object c =>
    cases c with
    | getObject key =>
      show (m.seen bucketName key answer).singles = .start
      unfold Memory.seen
      split
      · rw [hm, Ahead.read_start]
      · exact hm
      · exact hm
    | putObject key object => exact hm
  | headObject key =>
    show (if _ then _ else m : Memory).singles = .start
    split <;> exact hm
  | listObjects keyPrefix token =>
    show (m.listed keyPrefix answer).singles = .start
    unfold Memory.listed
    split
    · exact hm
    · split
      · next heq =>
        subst heq
        exact absurd ⟨_, he, rfl, by simp [ArchiveCall.listsSingles]⟩ h
      · exact hm
  | deleteObjects keys => exact hm

/-- A manifest that is stored refers to what its upload has stored. -/
theorem PathsPresent.insert_manifest {manifest : OnlineReleaseManifest} {uploaded : List String}
    (h : PathsPresent bucketName bucket) (hpre : hasPrefix manifestKeyPrefix key)
    (hpaths : ∀ path ∈ manifest.paths, path.s3BucketName = bucketName ∧ path.s3Key ∈ uploaded)
    (huploaded : ∀ k ∈ uploaded, k ∈ bucket) :
    PathsPresent bucketName (bucket.insert key (.manifest manifest)) := by
  refine ⟨fun key' document hpre' hlookup k hk => mem_insert_of_mem ?_,
    fun key' document hpre' hlookup k hk => mem_insert_of_mem ?_⟩
  · by_cases hkey : key' = key
    · subst hkey
      rw [AList.lookup_insert] at hlookup
      obtain rfl := S3Object.manifest.inj (Option.some.inj hlookup)
      obtain ⟨path, hpath, rfl⟩ := List.mem_map.1 hk
      exact huploaded _ (hpaths path (List.mem_filter.1 hpath).1).2
    · rw [AList.lookup_insert_ne hkey] at hlookup
      exact h.singles key' document hpre' hlookup k hk
  · have hne : key' ≠ key := by
      rintro rfl
      exact not_setPrefix hpre hpre'
    rw [AList.lookup_insert_ne hne] at hlookup
    exact h.sets key' document hpre' hlookup k hk

/-- A manifest that is stored while the clean-up has yet to list the single manifests, or that
has no paths, is covered. -/
theorem Covers.insert_manifest {manifest : OnlineReleaseManifest}
    (h : Covers bucketName m bucket) (hpre : hasPrefix manifestKeyPrefix key)
    (hnew : m.singles = .start ∨ manifest.paths = []) :
    Covers bucketName m (bucket.insert key (.manifest manifest)) := by
  refine ⟨fun key' document hpre' hlookup => ?_, fun key' document hpre' hlookup => ?_⟩
  · by_cases hkey : key' = key
    · subst hkey
      rw [AList.lookup_insert] at hlookup
      obtain rfl := S3Object.manifest.inj (Option.some.inj hlookup)
      rcases hnew with hstart | hpaths
      · rw [hstart]
        exact Or.inl (Ahead.has_start key')
      · simp [hpaths, keysIn]
    · rw [AList.lookup_insert_ne hkey] at hlookup
      exact h.singles key' document hpre' hlookup
  · have hne : key' ≠ key := by
      rintro rfl
      exact not_setPrefix hpre hpre'
    rw [AList.lookup_insert_ne hne] at hlookup
    exact h.sets key' document hpre' hlookup

/-- A step of another client changes nothing of what a client remembers. -/
theorem remembers_step_of_ne {client other : Option ι} (hne : other ≠ client) :
    remembers config bucketName uploads other (System.step (archiveService paging) s client) =
      remembers config bucketName uploads other s :=
  System.memory_step_of_ne _ _ hne

/-- Storing an object takes nothing from the other uploads, and nothing that the clean-up has
read. -/
theorem Intact.put {i : ι} {object : S3Object}
    {next : archive.Answer (.object (.putObject key object)) → Process archive Outcome}
    (h : Intact config bucketName uploads s)
    (hp : s.processes (some i) = .call (.object (.putObject key object)) next)
    (hpresent : PathsPresent bucketName (s.store.insert key object))
    (hown : ∀ k ∈ (remembers config bucketName uploads (some i)
      (System.step (archiveService paging) s (some i))).uploaded, k ∈ s.store.insert key object)
    (hcovered : ¬ (s.processes none).finished →
      Covers bucketName (remembers config bucketName uploads none s) (s.store.insert key object)) :
    Intact config bucketName uploads (System.step (archiveService paging) s (some i)) := by
  have hstore : (System.step (archiveService paging) s (some i)).store =
      s.store.insert key object := System.store_step hp
  refine ⟨?_, fun j hj k hk => ?_, fun hnone => ?_⟩
  · rw [hstore]
    exact hpresent
  · rw [hstore]
    by_cases hji : j = i
    · subst hji
      exact hown k hk
    · have hne : (some j : Option ι) ≠ some i := fun heq => hji (Option.some.inj heq)
      rw [System.step_processes_of_ne hne] at hj
      rw [remembers_step_of_ne hne] at hk
      exact mem_insert_of_mem (h.uploaded j hj k hk)
  · rw [System.step_processes_of_ne (by simp)] at hnone
    rw [remembers_step_of_ne (by simp), hstore]
    exact hcovered hnone

/-- What an upload keeps that is not under way next to the clean-up. -/
theorem Intact.upload {i : ι} {c : ArchiveCall} {next : archive.Answer c → Process archive Outcome}
    (h : Intact config bucketName uploads s) (hapart : ¬ (Publishing s ∧ Collecting s))
    (hp : s.processes (some i) = .call c next)
    (hallowed : (publishingArchive config bucketName (uploads i)).Allowed
      (remembers config bucketName uploads (some i) s) c) :
    Intact config bucketName uploads (System.step (archiveService paging) s (some i)) := by
  have hrunning : ¬ (s.processes (some i)).finished := by simp [hp, Process.finished]
  have hstored := h.uploaded i hrunning
  have hown := System.memory_step (S := archiveService paging)
    (archiveDiscipline config bucketName uploads (some i)) .start hp
  cases c with
  | headObject key => exact hallowed.elim
  | listObjects keyPrefix token => exact hallowed.elim
  | deleteObjects keys => exact hallowed.elim
  | object c =>
    cases c with
    | getObject key => exact hallowed.elim
    | putObject key object =>
      rcases hallowed with ⟨rfl, sha1Digest, rfl⟩ | ⟨manifest, orders, -, rfl, -, hkey, hpaths⟩
      · -- the artifact
        refine h.put hp ?_ (fun k hk => ?_) fun hnone => ?_
        · exact h.present.of_documents (documentsOf_insert_data sha1Digest)
            fun k hk => mem_insert_of_mem hk
        · rw [remembers, hown] at hk
          rcases List.mem_cons.1 hk with rfl | hk
          · exact (AList.mem_insert _).2 (Or.inl rfl)
          · exact mem_insert_of_mem (hstored k hk)
        · exact (h.covered hnone).of_documents (documentsOf_insert_data sha1Digest)
      · -- the manifest, which refers to what this upload has stored
        have hpre := hasPrefix_of_key hkey
        refine h.put hp (h.present.insert_manifest hpre hpaths hstored) (fun k hk => ?_) fun hnone => ?_
        · rw [remembers, hown] at hk
          exact absurd hk List.not_mem_nil
        · refine (h.covered hnone).insert_manifest hpre ?_
          by_cases hbegun : ∃ e ∈ s.history, e.client = some i
          · refine Or.inl (remembers_singles fun hlisting => hapart ?_)
            exact ⟨⟨i, hbegun, hrunning⟩, hlisting, hnone⟩
          · -- it is the first thing that this upload stores
            push Not at hbegun
            rw [remembers_start hbegun] at hpaths
            refine Or.inr (List.eq_nil_iff_forall_not_mem.2 fun path hpath => ?_)
            exact List.not_mem_nil (hpaths path hpath).2

/-- While the clean-up deletes objects, an upload that is still running has not begun. -/
theorem not_begun_of_deleting {i : ι} {keys : List String}
    (hapart : ¬ (Publishing s ∧ Collecting s)) (hrunning : ¬ (s.processes none).finished)
    (hi : ¬ (s.processes (some i)).finished)
    (hallowed : (collecting bucketName).Allowed (remembers config bucketName uploads none s)
      (.deleteObjects keys)) : ∀ e ∈ s.history, e.client ≠ some i := by
  have hcollecting : Collecting s := by
    refine ⟨?_, hrunning⟩
    by_contra hlisting
    have hstart := hallowed.2.1.symm.trans (remembers_singles hlisting)
    exact nomatch congrArg Ahead.rest hstart
  exact fun e he hclient => hapart ⟨⟨i, ⟨e, he, hclient⟩, hi⟩, hcollecting⟩

/-- What the clean-up keeps while no upload is under way. -/
theorem Intact.collect {c : ArchiveCall} {next : archive.Answer c → Process archive Outcome}
    (h : Intact config bucketName uploads s) (hapart : ¬ (Publishing s ∧ Collecting s))
    (hp : s.processes none = .call c next)
    (hallowed : (collecting bucketName).Allowed (remembers config bucketName uploads none s) c) :
    Intact config bucketName uploads (System.step (archiveService paging) s none) := by
  have hrunning : ¬ (s.processes none).finished := by simp [hp, Process.finished]
  have hcovered := h.covered hrunning
  have hstore := System.store_step (S := archiveService paging) hp
  refine ⟨?_, fun i hi k hk => ?_, fun _ => ?_⟩
  · rw [hstore]
    cases c with
    | object c =>
      cases c with
      | getObject key => exact h.present
      | putObject key object => exact hallowed.elim
    | headObject key => exact h.present
    | listObjects keyPrefix token => exact h.present
    | deleteObjects keys => exact h.present.deleteObjects hcovered hallowed
  · rw [System.step_processes_of_ne (by simp)] at hi
    rw [remembers_step_of_ne (by simp)] at hk
    have hold := h.uploaded i hi k hk
    rw [hstore]
    cases c with
    | object c =>
      cases c with
      | getObject key => exact hold
      | putObject key object => exact hallowed.elim
    | headObject key => exact hold
    | listObjects keyPrefix token => exact hold
    | deleteObjects keys =>
      rw [remembers_start (not_begun_of_deleting hapart hrunning hi hallowed)] at hk
      exact absurd hk List.not_mem_nil
  · rw [remembers, System.memory_step _ _ hp, hstore]
    cases c with
    | object c =>
      cases c with
      | getObject key => exact hcovered.seen key
      | putObject key object => exact hallowed.elim
    | headObject key =>
      show Covers bucketName (if _ = some true then _ else _) s.store
      split
      · next hdirectory =>
        refine hcovered.head key ?_
        obtain ⟨object, hlookup, hobject⟩ := Option.map_eq_some_iff.1 hdirectory
        rw [hlookup, of_decide_eq_true hobject]
      · exact hcovered
    | listObjects keyPrefix token => exact hcovered.listed hallowed
    | deleteObjects keys => exact hcovered.of_documents (documentsOf_deleteObjects keys)

/-- As long as no upload is under way while the clean-up goes from the single manifests to its
end, every path of every stored manifest is in the bucket. -/
theorem publishing_safe {threads : ReadOrder} {pages : ℕ} {schedule : List (Option ι)}
    (hstart : PathsPresent bucketName bucket)
    (hapart : ∀ taken, taken <+: schedule →
      ¬ (Publishing (publishAndCollect paging config bucketName threads pages uploads bucket taken) ∧
        Collecting (publishAndCollect paging config bucketName threads pages uploads bucket taken)))
    {taken : List (Option ι)} (htaken : taken <+: schedule) :
    PathsPresent bucketName
      (publishAndCollect paging config bucketName threads pages uploads bucket taken).store := by
  have hrun := System.run_induction_while (S := archiveService paging)
    (s := System.start bucket (archiveClients config bucketName threads pages uploads))
    (G := fun s _ => ¬ (Publishing s ∧ Collecting s))
    (P := fun s => Intact config bucketName uploads s ∧
      System.AllFollow (archiveDiscipline config bucketName uploads) .start (fun _ _ => True) s)
    ⟨⟨hstart, fun _ _ _ hk => absurd hk List.not_mem_nil, fun _ => Covers.start bucket⟩,
      archiveClients_follow threads pages⟩ (fun s client hgood hs => ?_)
    fun earlier client hearlier => hapart earlier
      ((List.prefix_append _ [client]).trans (hearlier.trans htaken))
  · exact hrun.1.present
  · refine ⟨?_, hs.2.step client⟩
    have hclient := hs.2 client
    cases hp : s.processes client with
    | done outcome =>
      rw [System.step_of_done hp]
      exact hs.1
    | call c next =>
      rw [hp] at hclient
      cases client with
      | none => exact hs.1.collect hgood hp hclient.1
      | some i => exact hs.1.upload hgood hp hclient.1

instance [Fintype ι] (s : System archive Bucket (Option ι) Outcome) : Decidable (Publishing s) :=
  inferInstanceAs (Decidable (∃ i, (∃ e ∈ s.history, e.client = some i) ∧
    ¬ (s.processes (some i)).finished))

instance (s : System archive Bucket (Option ι) Outcome) : Decidable (Collecting s) :=
  inferInstanceAs (Decidable ((∃ e ∈ s.history, e.client = none ∧ e.call.listsSingles) ∧
    ¬ (s.processes none).finished))

theorem pathsPresent_empty (bucketName : String) : PathsPresent bucketName ∅ where
  singles _ _ _ hlookup := nomatch hlookup
  sets _ _ _ hlookup := nomatch hlookup

end System

/-! ## An upload between two calls of the clean-up -/

/-- A thousand keys on a page. -/
def thousand : Paging := ⟨fun _ _ _ => 1000, fun _ _ _ => by decide⟩

/-- An upload and the clean-up in some order. -/
def uploadAndCollect (schedule : List (Option Unit)) :
    System archive Bucket (Option Unit) Outcome :=
  publishAndCollect thousand caseConfig "gardenlinux" ⟨id, fun _ => .refl _⟩ 3
    (fun _ => caseUpload "") ∅ schedule

/-- The upload, and then the clean-up. -/
theorem publishing_safe_oneAfterTheOther :
    PathsPresent "gardenlinux"
      (uploadAndCollect [some (), some (), none, none, none, none]).store :=
  publishing_safe (pathsPresent_empty "gardenlinux")
    (fun taken htaken => (show ∀ taken ∈ [some (), some (), none, none, none, none].inits,
      ¬ (Publishing (uploadAndCollect taken) ∧ Collecting (uploadAndCollect taken)) by
        decide +kernel) taken ((List.mem_inits ..).2 htaken))
    (List.prefix_refl _)

/-- The keys of the files of a manifest that is stored. -/
def storedKeys (bucketName : String) : Option S3Object → List String
  | some (.manifest document) => keysIn bucketName document.paths
  | _ => []

/-- The clean-up reads the manifests before the upload stores its artifact, and deletes the
artifact before the upload stores its manifest. -/
theorem publishing_unsafe :
    ¬ ∀ (paging : Paging) (config : Config) (bucketName : String) (threads : ReadOrder) (pages : ℕ)
        (uploads : Unit → UploadArgs) (bucket : Bucket) (schedule : List (Option Unit)),
      PathsPresent bucketName bucket →
      (∀ client, ((publishAndCollect paging config bucketName threads pages uploads bucket
        schedule).processes client).finished) →
      PathsPresent bucketName (publishAndCollect paging config bucketName threads pages uploads bucket
        schedule).store := by
  intro h
  have hpresent := h thousand caseConfig "gardenlinux" ⟨id, fun _ => .refl _⟩ 3
    (fun _ => caseUpload "") ∅ [none, none, some (), none, none, some ()]
    (pathsPresent_empty "gardenlinux") (by decide +kernel)
  have hstored : storedKeys "gardenlinux"
      ((uploadAndCollect [none, none, some (), none, none, some ()]).store.lookup
        "meta/singles/aws-576.0-5b1e9f") = ["objects/7037807198c22a7d2b0807371d763779a84fdfcf"] := by
    decide +kernel
  have hmissing : "objects/7037807198c22a7d2b0807371d763779a84fdfcf" ∉
      (uploadAndCollect [none, none, some (), none, none, some ()]).store := by decide +kernel
  unfold storedKeys at hstored
  split at hstored
  · next document hlookup =>
    refine hmissing (hpresent.singles _ document (by decide) hlookup _ ?_)
    rw [hstored]
    exact List.mem_singleton.2 rfl
  · cases hstored

end Glci
