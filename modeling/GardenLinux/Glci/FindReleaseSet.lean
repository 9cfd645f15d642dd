import GardenLinux.Glci.ReleaseSets

/-!
# Finding a published release set

`find_release_set` and the choice of the release set in `build_component_descriptor`, after an
upload by `promote_step` and whatever happened since: `promote_step` puts the time of the upload
into the key of snapshots and daily builds, and the search does not know it.

What is proved here:

* `osPathJoin_append_ne` — a longer name makes another path;
* `Published.found` — after any number of uploads for the same arguments, the last release is
  found under its key;
* `releaseSet_found_iff` — an uploaded release set is found exactly if it is a release.
-/

namespace Glci

open GardenFeat Relation

/-! ## The search -/

/-- `find_release_set`. -/
def findReleaseSet (bucketName : String) (bucket : Bucket) (args : ReleaseSetArgs)
    (absentOk : Bool) : Except ModelError (Option OnlineReleaseManifestSet) :=
  releaseManifestSet bucketName bucket (releaseSetKey args none) absentOk

/-- `_calculate_effective_version`. -/
def calculateEffectiveVersion (version : String) (buildTargets : List BuildTarget)
    (committish : String) : String :=
  if BuildTarget.freezeVersion ∈ buildTargets then version else version ++ "-" ++ committish

/-- `_is_finalized_version`: what `finalize_version` returns is a version, which counts as
true. -/
def isFinalizedVersion (config : Config) (version : String) : Except ModelError Bool :=
  (config.parseToSemver version).map fun _ => true

/-- The key of the manifest set that `build_component_descriptor` refers to. -/
def manifestSetReference (config : Config) (bucketName : String) (bucket : Bucket)
    (args : ReleaseSetArgs) (buildTargets : List BuildTarget) :
    Except ModelError (Option String) := do
  let isFinalized ← isFinalizedVersion config
    (calculateEffectiveVersion args.version buildTargets args.buildCommittish)
  let args := { args with buildType := if isFinalized then .release else .snapshot }
  let releaseSet ← findReleaseSet bucketName bucket args true
  pure (releaseSet.map fun _ => releaseSetKey args none)

/-! ## Uploads -/

/-- The bucket, and the manifest sets that were uploaded for some arguments, newest first. -/
structure Published where
  bucket : Bucket
  uploads : List (String × OnlineReleaseManifestSet)

/-- Another upload by `promote_step` for the same arguments, or anything that leaves the uploaded
sets alone. -/
inductive Published.Step (config : Config) (bucketName : String) (args : ReleaseSetArgs) :
    Published → Published → Prop
  | promote {s : Published} {promoteArgs : PromoteStepArgs} {key : String}
      {manifestSet : OnlineReleaseManifestSet} (hsame : promoteArgs.releaseSet = args)
      (h : promoteStep config bucketName promoteArgs s.bucket = .ok (key, manifestSet)) :
      Step config bucketName args s
        ⟨promoteStepStore config bucketName promoteArgs s.bucket, (key, manifestSet) :: s.uploads⟩
  | other {s : Published} {bucket : Bucket}
      (h : ∀ upload ∈ s.uploads, bucket.lookup upload.1 = s.bucket.lookup upload.1) :
      Step config bucketName args s ⟨bucket, s.uploads⟩

/-- The search returns an uploaded set, and a component descriptor that is built for the same
arguments refers to it. -/
def Published.Found (config : Config) (bucketName : String) (args : ReleaseSetArgs)
    (s : Published) : Prop :=
  ∃ upload ∈ s.uploads,
    (∀ absentOk, findReleaseSet bucketName s.bucket args absentOk =
      .ok (some { upload.2 with s3Key := upload.1, s3Bucket := bucketName })) ∧
    ∀ buildTargets reference,
      manifestSetReference config bucketName s.bucket args buildTargets = .ok reference →
      reference = some upload.1

/-! ## Keys with and without a timestamp -/

/-- A longer name makes another path. -/
theorem osPathJoin_append_ne {path name rest : String} (hname : name ≠ "") (hrest : rest ≠ "") :
    osPathJoin path (name ++ rest) ≠ osPathJoin path name := by
  have hhead : (name ++ rest).toList.head? = name.toList.head? := by
    rw [String.toList_append, List.head?_append_of_ne_nil _ fun hnil => hname ?_]
    exact String.toList_inj.1 hnil
  have hpos : 0 < rest.length := by
    rw [Nat.pos_iff_ne_zero]
    intro hzero
    exact hrest (String.length_eq_zero_iff.1 hzero)
  have hlonger : ∀ start : String, start ++ (name ++ rest) ≠ start ++ name := by
    intro start heq
    have hlength := congrArg String.length heq
    simp only [String.length_append] at hlength
    omega
  unfold osPathJoin
  rw [hhead]
  split
  · intro heq
    exact hlonger "" (by simpa using heq)
  · split
    · exact hlonger path
    · exact hlonger (path ++ "/")

/-- The time of the upload is in the key, unless it is a release. -/
theorem releaseSetKey_timestamp {args : ReleaseSetArgs} {timestamp : String} :
    releaseSetKey args (some timestamp) = releaseSetKey args none ↔ args.buildType = .release := by
  obtain ⟨flavourSetName, buildCommittish, gardenlinuxEpoch, version, buildType⟩ := args
  have hne : ∀ path epoch committish name : String,
      osPathJoin path (epoch ++ "-" ++ committish ++ "-" ++ name ++ ("-" ++ timestamp)) ≠
        osPathJoin path (epoch ++ "-" ++ committish ++ "-" ++ name) := by
    intro path epoch committish name
    refine osPathJoin_append_ne (fun hnil => ?_) fun hnil => ?_
    · have hlength := congrArg String.length hnil
      simp at hlength
    · have hlength := congrArg String.length hnil
      simp at hlength
  cases buildType with
  | release => exact iff_of_true rfl rfl
  | snapshot => exact iff_of_false (hne _ _ _ _) (nomatch ·)
  | daily => exact iff_of_false (hne _ _ _ _) (nomatch ·)

/-! ## The last upload -/

section Runs

variable {config : Config} {bucketName : String} {args : ReleaseSetArgs} {s s' : Published}

theorem key_of_promoteStep_ok {promoteArgs : PromoteStepArgs} {bucket : Bucket} {key : String}
    {manifestSet : OnlineReleaseManifestSet}
    (h : promoteStep config bucketName promoteArgs bucket = .ok (key, manifestSet)) :
    key = releaseSetKey promoteArgs.releaseSet (some promoteArgs.utcnow) := by
  obtain ⟨flavours, -, h⟩ := bind_ok_iff.1 h
  split at h
  · exact nomatch h
  · obtain ⟨releases, -, h⟩ := bind_ok_iff.1 h
    split at h
    · exact nomatch h
    · exact (Prod.mk.inj (Except.ok.inj h)).1.symm

/-- The last uploaded set is under its key, and the keys are those of the arguments. -/
structure Published.Kept (args : ReleaseSetArgs) (s : Published) : Prop where
  keys : ∀ upload ∈ s.uploads, ∃ timestamp, upload.1 = releaseSetKey args (some timestamp)
  newest : ∃ upload ∈ s.uploads, s.bucket.lookup upload.1 = some (.manifestSet upload.2)

/-- An upload is kept, next to those before it. -/
theorem Published.Kept.promote {promoteArgs : PromoteStepArgs} {bucket : Bucket} {key : String}
    {manifestSet : OnlineReleaseManifestSet} {uploads : List (String × OnlineReleaseManifestSet)}
    (h : promoteStep config bucketName promoteArgs bucket = .ok (key, manifestSet))
    (hkeys : ∀ upload ∈ uploads,
      ∃ timestamp, upload.1 = releaseSetKey promoteArgs.releaseSet (some timestamp)) :
    Kept promoteArgs.releaseSet
      ⟨promoteStepStore config bucketName promoteArgs bucket, (key, manifestSet) :: uploads⟩ where
  keys := List.forall_mem_cons.2 ⟨⟨_, key_of_promoteStep_ok h⟩, hkeys⟩
  newest := by
    refine ⟨(key, manifestSet), List.mem_cons_self .., ?_⟩
    unfold promoteStepStore
    rw [h]
    exact AList.lookup_insert _

theorem Published.Kept.step (h : Kept args s) (hstep : Step config bucketName args s s') :
    Kept args s' := by
  cases hstep with
  | promote hsame hpromote =>
    subst hsame
    exact Kept.promote hpromote h.keys
  | other hother =>
    obtain ⟨upload, hupload, hlookup⟩ := h.newest
    exact ⟨h.keys, upload, hupload, (hother upload hupload).trans hlookup⟩

theorem Published.Kept.run (h : Kept args s)
    (hrun : ReflTransGen (Step config bucketName args) s s') : Kept args s' := by
  induction hrun with
  | refl => exact h
  | tail _ hstep ih => exact ih.step hstep

theorem findReleaseSet_of_lookup {bucket : Bucket} {manifestSet : OnlineReleaseManifestSet}
    (h : bucket.lookup (releaseSetKey args none) = some (.manifestSet manifestSet))
    (absentOk : Bool) : findReleaseSet bucketName bucket args absentOk =
      .ok (some { manifestSet with s3Key := releaseSetKey args none, s3Bucket := bucketName }) := by
  unfold findReleaseSet releaseManifestSet
  rw [h]

theorem s3Key_of_findReleaseSet {bucket : Bucket} {absentOk : Bool}
    {manifestSet : OnlineReleaseManifestSet}
    (h : findReleaseSet bucketName bucket args absentOk = .ok (some manifestSet)) :
    manifestSet.s3Key = releaseSetKey args none := by
  unfold findReleaseSet releaseManifestSet at h
  split at h
  · obtain rfl := Option.some.inj (Except.ok.inj h)
    rfl
  · exact nomatch h
  · split at h <;> exact nomatch h

/-- The last upload of a release is found. -/
theorem Published.Kept.found (h : Kept args s) (hrelease : args.buildType = .release) :
    s.Found config bucketName args := by
  obtain ⟨upload, hupload, hlookup⟩ := h.newest
  obtain ⟨timestamp, hkey⟩ := h.keys upload hupload
  rw [releaseSetKey_timestamp.2 hrelease] at hkey
  rw [hkey] at hlookup
  refine ⟨upload, hupload, fun absentOk => ?_, fun buildTargets reference hreference => ?_⟩
  · rw [hkey, findReleaseSet_of_lookup hlookup]
  · obtain ⟨isFinalized, hfinalized, h⟩ := bind_ok_iff.1 hreference
    obtain ⟨_, -, rfl⟩ := map_ok_iff.1 hfinalized
    -- every version that can be parsed counts as final
    have hargs : { args with buildType := BuildType.release } = args := by
      rw [← hrelease]
    change (findReleaseSet bucketName s.bucket { args with buildType := .release } true >>= fun set =>
      pure (set.map fun _ => releaseSetKey { args with buildType := .release } none)) = _ at h
    rw [hargs, findReleaseSet_of_lookup hlookup] at h
    rw [hkey]
    exact (Except.ok.inj h).symm

/-- An uploaded release set is found again, by the search and by a component descriptor, exactly
if it is a release. -/
theorem releaseSet_found_iff {promoteArgs : PromoteStepArgs} {bucket : Bucket} {key : String}
    {manifestSet : OnlineReleaseManifestSet}
    (hupload : promoteStep config bucketName promoteArgs bucket = .ok (key, manifestSet))
    (hrun : ReflTransGen (Published.Step config bucketName promoteArgs.releaseSet)
      ⟨promoteStepStore config bucketName promoteArgs bucket, [(key, manifestSet)]⟩ s) :
    s.Found config bucketName promoteArgs.releaseSet ↔ promoteArgs.promoteTarget = .release := by
  have hkept := (Published.Kept.promote hupload
    (fun upload (h : upload ∈ []) => absurd h List.not_mem_nil)).run hrun
  refine ⟨?_, fun hrelease => hkept.found hrelease⟩
  rintro ⟨upload, hmem, hfound, -⟩
  obtain ⟨timestamp, hkey⟩ := hkept.keys upload hmem
  have hsearched := s3Key_of_findReleaseSet (hfound true)
  exact releaseSetKey_timestamp.1 (hkey.symm.trans hsearched)

end Runs

/-! ## A release and a snapshot of `gcp` -/

def promoteProd (buildType : BuildType) : PromoteStepArgs :=
  { promoteGcp [["_prod"]] with promoteTarget := buildType }

/-- The set with the release of `gcp`, as it is uploaded. -/
def prodSet : OnlineReleaseManifestSet :=
  ⟨[{ prodRelease with
      s3Key := "meta/singles/gcp-cloud-_prod-576.0-5b1e9f", s3Bucket := "gardenlinux" }], "gcp", "",
    "", none⟩

theorem releaseSet_found_release :
    Published.Found repositoryConfig "gardenlinux" (promoteProd .release).releaseSet
      ⟨promoteStepStore repositoryConfig "gardenlinux" (promoteProd .release) prodBucket,
        [("meta/sets/release/576.0-gcp", prodSet)]⟩ :=
  (releaseSet_found_iff (by decide +kernel) .refl).2 rfl

/-- The search for a snapshot does not look where the upload has stored it. -/
theorem releaseSet_found_fails :
    ¬ ∀ (config : Config) (bucketName : String) (promoteArgs : PromoteStepArgs) (bucket : Bucket)
        (key : String) (manifestSet : OnlineReleaseManifestSet),
      promoteStep config bucketName promoteArgs bucket = .ok (key, manifestSet) →
      Published.Found config bucketName promoteArgs.releaseSet
        ⟨promoteStepStore config bucketName promoteArgs bucket, [(key, manifestSet)]⟩ := by
  intro h
  obtain ⟨upload, hupload, hfound, -⟩ := h repositoryConfig "gardenlinux" (promoteProd .snapshot)
    prodBucket "meta/sets/snapshot/576-5b1e9f-gcp-20220124-120000" prodSet (by decide +kernel)
  have habsent : (findReleaseSet "gardenlinux"
      (promoteStepStore repositoryConfig "gardenlinux" (promoteProd .snapshot) prodBucket)
      (promoteProd .snapshot).releaseSet true) = .ok none := by
    decide +kernel
  exact nomatch habsent.symm.trans (hfound true)

end Glci
