import GardenLinux.Glci.Clean
import GardenLinux.Glci.Flavours

/-!
# Publishing a release set

`promote_step` looks for the releases of a flavour set and, when it has found as many as the
flavour set has flavours, uploads the set of their manifests; `find_release_set` looks for such a
set, and so does `build_component_descriptor`.

What is proved here:

* `of_findReleases_ok` — how many releases are found, and which;
* `promoteStep_complete_iff` — a release set is published exactly if it is complete, unless the
  combinations of the flavour set generate a flavour twice.
-/

namespace Glci

open GardenFeat

/-! ## The arguments -/

inductive BuildType
  | snapshot
  | daily
  | release
  deriving DecidableEq, Repr

def BuildType.value : BuildType → String
  | .snapshot => "snapshot"
  | .daily => "daily"
  | .release => "release"

/-- What a release set is published and found by. -/
structure ReleaseSetArgs where
  flavourSetName : String
  buildCommittish : String
  gardenlinuxEpoch : ℤ
  version : String
  buildType : BuildType
  deriving DecidableEq, Repr

/-- The arguments of `promote_step`; the orders in which it lists its sets, and the time of the
upload. -/
structure PromoteStepArgs where
  flavourSet : GardenlinuxFlavourSet
  buildTargets : List BuildTarget
  gardenlinuxEpoch : ℤ
  committish : String
  version : String
  promoteTarget : BuildType
  flavourOrders : CallOrders
  setOrder : Enumeration GardenlinuxFlavour
  findOrders : GardenlinuxFlavour → FindOrders
  utcnow : String

def PromoteStepArgs.releaseSet (args : PromoteStepArgs) : ReleaseSetArgs :=
  ⟨args.flavourSet.name, args.committish, args.gardenlinuxEpoch, args.version, args.promoteTarget⟩

/-! ## Keys of release sets -/

/-- `release_set_manifest_name`; `timestamp` is that of `with_timestamp`. -/
def releaseSetManifestName (args : ReleaseSetArgs) (timestamp : Option String) : String :=
  match args.buildType with
  | .release => args.version ++ "-" ++ args.flavourSetName
  | _ =>
    let name := toString args.gardenlinuxEpoch ++ "-" ++
      String.ofList (args.buildCommittish.toList.take 6) ++ "-" ++ args.flavourSetName
    match timestamp with
    | some text => name ++ ("-" ++ text)
    | none => name

/-- `os.path.join` of two paths. -/
def osPathJoin (path name : String) : String :=
  if name.toList.head? = some '/' then name
  else if path = "" ∨ path.toList.getLast? = some '/' then path ++ name
  else path ++ "/" ++ name

/-- The key of a release set. -/
def releaseSetKey (args : ReleaseSetArgs) (timestamp : Option String) : String :=
  osPathJoin (osPathJoin releaseManifestSetPrefix args.buildType.value)
    (releaseSetManifestName args timestamp)

/-! ## Finding releases -/

/-- The search of `find_releases` for the release of a flavour. -/
def findReleaseOf (config : Config) (bucketName : String) (args : PromoteStepArgs)
    (bucket : Bucket) (flavour : GardenlinuxFlavour) :
    Except ModelError (Option OnlineReleaseManifest) :=
  findRelease (args.findOrders flavour) config.upper config.allFeatures bucketName bucket
    ⟨args.committish, args.version, args.gardenlinuxEpoch, flavour.architecture, flavour.platform,
      flavour.modifiers⟩

/-- `find_releases`, run to its end. -/
def findReleases (config : Config) (bucketName : String) (args : PromoteStepArgs)
    (bucket : Bucket) : Except ModelError (List OnlineReleaseManifest) := do
  let flavours ← args.flavourSet.flavours args.flavourOrders config
  gather (fun flavour => (findReleaseOf config bucketName args bucket flavour).map Option.toList)
    (args.setOrder.list flavours.toFinset)

/-- `promote_step`: the key and the manifest set that it uploads. -/
def promoteStep (config : Config) (bucketName : String) (args : PromoteStepArgs)
    (bucket : Bucket) : Except Exit (String × OnlineReleaseManifestSet) := do
  let flavours ← (args.flavourSet.flavours args.flavourOrders config).mapError .modelError
  if BuildTarget.manifest ∉ args.buildTargets then .error (.sysExit 0)
  else do
    let releases ← (findReleases config bucketName args bucket).mapError .modelError
    if releases.length ≠ flavours.length then .error (.sysExit 1)
    else
      .ok (releaseSetKey args.releaseSet (some args.utcnow),
        ⟨releases, args.flavourSet.name, "", "", none⟩)

/-- The bucket after `promote_step`. -/
def promoteStepStore (config : Config) (bucketName : String) (args : PromoteStepArgs)
    (bucket : Bucket) : Bucket :=
  match promoteStep config bucketName args bucket with
  | .ok (key, manifestSet) => bucket.insert key (.manifestSet manifestSet)
  | .error _ => bucket

/-! ## Completeness -/

section Complete

variable {config : Config} {bucketName : String} {args : PromoteStepArgs} {bucket : Bucket}

/-- `find_release` finds a manifest for a flavour. -/
def ReleaseOf (config : Config) (bucketName : String) (args : PromoteStepArgs) (bucket : Bucket)
    (flavour : GardenlinuxFlavour) (manifest : OnlineReleaseManifest) : Prop :=
  findReleaseOf config bucketName args bucket flavour = .ok (some manifest)

/-- Every flavour of the list has a release. -/
def Complete (config : Config) (bucketName : String) (args : PromoteStepArgs) (bucket : Bucket)
    (flavours : List GardenlinuxFlavour) : Prop :=
  ∀ flavour ∈ flavours, ∃ manifest, ReleaseOf config bucketName args bucket flavour manifest

/-- The manifests are those of the distinct flavours, one for each. -/
def OneForEach (config : Config) (bucketName : String) (args : PromoteStepArgs) (bucket : Bucket)
    (flavours : List GardenlinuxFlavour) (manifests : List OnlineReleaseManifest) : Prop :=
  ∃ distinct : List GardenlinuxFlavour, distinct.Nodup ∧
    (∀ flavour, flavour ∈ distinct ↔ flavour ∈ flavours) ∧
    List.Forall₂ (ReleaseOf config bucketName args bucket) distinct manifests

/-- A search of one after the other finds at most one for each, and one for each exactly if
none is missing. -/
theorem of_gather_option_ok {α β : Type} {find : α → Except ModelError (Option β)} {xs : List α}
    {ys : List β} (h : gather (fun x => (find x).map Option.toList) xs = .ok ys) :
    ys.length ≤ xs.length ∧
      (ys.length = xs.length ↔ ∀ x ∈ xs, ∃ y, find x = .ok (some y)) ∧
      (ys.length = xs.length → List.Forall₂ (fun x y => find x = .ok (some y)) xs ys) := by
  induction xs generalizing ys with
  | nil =>
    obtain rfl := Except.ok.inj h
    simp
  | cons x xs ih =>
    obtain ⟨_, zs, hx, hxs, rfl⟩ := gather_cons_ok_iff.1 h
    obtain ⟨found, hfound, rfl⟩ := map_ok_iff.1 hx
    obtain ⟨hle, hiff, hforall⟩ := ih hxs
    rw [List.length_append, List.length_cons, List.forall_mem_cons]
    cases found with
    | none =>
      have hlt : (none : Option β).toList.length + zs.length ≠ xs.length + 1 := by
        rw [Option.toList_none, List.length_nil]
        omega
      refine ⟨by simp; omega, iff_of_false hlt fun hall => ?_, fun heq => absurd heq hlt⟩
      obtain ⟨y, hy⟩ := hall.1
      exact nomatch hfound.symm.trans hy
    | some y =>
      have hlength : (some y).toList.length + zs.length = xs.length + 1 ↔
          zs.length = xs.length := by
        rw [Option.toList_some, List.length_singleton]
        omega
      refine ⟨by simp; omega, ?_, fun heq => ?_⟩
      · rw [hlength, hiff]
        exact ⟨fun hall => ⟨⟨y, hfound⟩, hall⟩, fun hall => hall.2⟩
      · exact List.Forall₂.cons hfound (hforall (hlength.1 heq))

/-- `find_releases` goes through the distinct flavours. -/
theorem findReleases_ok_iff {flavours : List GardenlinuxFlavour} {releases : List OnlineReleaseManifest}
    (hflavours : args.flavourSet.flavours args.flavourOrders config = .ok flavours) :
    findReleases config bucketName args bucket = .ok releases ↔
      gather (fun flavour =>
        (findReleaseOf config bucketName args bucket flavour).map Option.toList)
        (args.setOrder.list flavours.toFinset) = .ok releases := by
  unfold findReleases
  rw [hflavours]
  rfl

/-- The distinct flavours are fewer than the generated ones, unless none is generated twice. -/
theorem length_list_toFinset (order : Enumeration GardenlinuxFlavour)
    (flavours : List GardenlinuxFlavour) :
    (order.list flavours.toFinset).length ≤ flavours.length ∧
      ((order.list flavours.toFinset).length = flavours.length ↔ flavours.Nodup) := by
  have hperm : (order.list flavours.toFinset).Perm flavours.dedup := by
    refine (List.perm_ext_iff_of_nodup (order.nodup _) (List.nodup_dedup _)).2 fun flavour => ?_
    rw [order.mem_list, List.mem_toFinset, List.mem_dedup]
  rw [hperm.length_eq]
  refine ⟨(List.dedup_sublist flavours).length_le, fun heq => ?_, fun hnodup => ?_⟩
  · exact List.dedup_eq_self.1 ((List.dedup_sublist flavours).eq_of_length heq)
  · rw [hnodup.dedup]

/-- What `promote_step` uploads are as many releases as there are generated flavours. -/
theorem promoteStep_ok_iff {flavours : List GardenlinuxFlavour} {key : String}
    {manifestSet : OnlineReleaseManifestSet}
    (hflavours : args.flavourSet.flavours args.flavourOrders config = .ok flavours)
    (htarget : .manifest ∈ args.buildTargets) :
    promoteStep config bucketName args bucket = .ok (key, manifestSet) ↔
      ∃ releases, findReleases config bucketName args bucket = .ok releases ∧
        releases.length = flavours.length ∧
        key = releaseSetKey args.releaseSet (some args.utcnow) ∧
        manifestSet = ⟨releases, args.flavourSet.name, "", "", none⟩ := by
  unfold promoteStep
  rw [hflavours]
  change (if _ then _ else _ : Except Exit _) = _ ↔ _
  rw [if_neg (not_not_intro htarget), bind_ok_iff]
  constructor
  · rintro ⟨releases, hreleases, h⟩
    split at h
    · exact nomatch h
    · next hlength =>
      obtain ⟨rfl, rfl⟩ := Prod.mk.inj (Except.ok.inj h)
      refine ⟨releases, ?_, not_not.1 hlength, rfl, rfl⟩
      cases hfound : findReleases config bucketName args bucket with
      | error e =>
        rw [hfound] at hreleases
        exact nomatch hreleases
      | ok found =>
        rw [hfound] at hreleases
        exact congrArg Except.ok (Except.ok.inj hreleases)
  · rintro ⟨releases, hreleases, hlength, rfl, rfl⟩
    refine ⟨releases, by rw [hreleases]; rfl, ?_⟩
    rw [if_neg (not_not_intro hlength)]

/-- A release set is published exactly if it is complete, with one manifest for each flavour. -/
def PublishedWhenComplete (config : Config) (bucketName : String) (args : PromoteStepArgs)
    (bucket : Bucket) (flavours : List GardenlinuxFlavour) : Prop :=
  ((∃ upload, promoteStep config bucketName args bucket = .ok upload) ↔
      Complete config bucketName args bucket flavours) ∧
    ∀ key manifestSet, promoteStep config bucketName args bucket = .ok (key, manifestSet) →
      OneForEach config bucketName args bucket flavours manifestSet.manifests

section Distinct

variable {flavours : List GardenlinuxFlavour}

/-- Whatever is uploaded is complete, and no flavour was generated twice. -/
theorem of_promoteStep_ok {key : String} {manifestSet : OnlineReleaseManifestSet}
    (hflavours : args.flavourSet.flavours args.flavourOrders config = .ok flavours)
    (htarget : .manifest ∈ args.buildTargets)
    (h : promoteStep config bucketName args bucket = .ok (key, manifestSet)) :
    flavours.Nodup ∧ Complete config bucketName args bucket flavours ∧
      OneForEach config bucketName args bucket flavours manifestSet.manifests := by
  obtain ⟨releases, hreleases, hlength, -, rfl⟩ := (promoteStep_ok_iff hflavours htarget).1 h
  obtain ⟨hle, hall, hforall⟩ := of_gather_option_ok ((findReleases_ok_iff hflavours).1 hreleases)
  obtain ⟨hdistinct, hnodup⟩ := length_list_toFinset args.setOrder flavours
  have hmem : ∀ flavour, flavour ∈ args.setOrder.list flavours.toFinset ↔ flavour ∈ flavours :=
    fun flavour => by rw [args.setOrder.mem_list, List.mem_toFinset]
  -- as many releases as generated flavours leave no room for a missing one
  have hsame : releases.length = (args.setOrder.list flavours.toFinset).length := by omega
  refine ⟨hnodup.1 (by omega), fun flavour hflavour => ?_, _, args.setOrder.nodup _, hmem,
    hforall hsame⟩
  exact hall.1 hsame flavour ((hmem flavour).2 hflavour)

/-- Without repetitions a complete release set is uploaded. -/
theorem promoteStep_of_complete
    (hflavours : args.flavourSet.flavours args.flavourOrders config = .ok flavours)
    (htarget : .manifest ∈ args.buildTargets) (hnodup : flavours.Nodup)
    (hcomplete : Complete config bucketName args bucket flavours) :
    ∃ upload, promoteStep config bucketName args bucket = .ok upload := by
  have hfound : ∀ flavour ∈ args.setOrder.list flavours.toFinset,
      ∃ manifest, ReleaseOf config bucketName args bucket flavour manifest := by
    intro flavour hflavour
    rw [args.setOrder.mem_list, List.mem_toFinset] at hflavour
    exact hcomplete flavour hflavour
  have hstep : ∀ flavour ∈ args.setOrder.list flavours.toFinset, ∃ manifests,
      (findReleaseOf config bucketName args bucket flavour).map Option.toList = .ok manifests := by
    intro flavour hflavour
    obtain ⟨manifest, hmanifest⟩ := hfound flavour hflavour
    exact ⟨_, map_ok_iff.2 ⟨some manifest, hmanifest, rfl⟩⟩
  obtain ⟨releases, hreleases⟩ := gather_ok hstep
  have hlength := ((of_gather_option_ok hreleases).2.1).2 hfound
  rw [(length_list_toFinset args.setOrder flavours).2.2 hnodup] at hlength
  exact ⟨_, (promoteStep_ok_iff hflavours htarget).2
    ⟨releases, (findReleases_ok_iff hflavours).2 hreleases, hlength, rfl, rfl⟩⟩

/-- A release set is published exactly if it is complete, unless it is complete and a flavour is
generated twice. -/
theorem promoteStep_complete_iff
    (hflavours : args.flavourSet.flavours args.flavourOrders config = .ok flavours)
    (htarget : .manifest ∈ args.buildTargets) :
    PublishedWhenComplete config bucketName args bucket flavours ↔
      flavours.Nodup ∨ ¬ Complete config bucketName args bucket flavours := by
  constructor
  · intro h
    by_contra hnot
    push Not at hnot
    obtain ⟨⟨key, manifestSet⟩, hupload⟩ := h.1.2 hnot.2
    exact hnot.1 (of_promoteStep_ok hflavours htarget hupload).1
  · intro h
    refine ⟨⟨?_, fun hcomplete => ?_⟩, fun key manifestSet hupload => ?_⟩
    · rintro ⟨⟨key, manifestSet⟩, hupload⟩
      exact (of_promoteStep_ok hflavours htarget hupload).2.1
    · have hnodup := h.resolve_right (not_not_intro hcomplete)
      exact promoteStep_of_complete hflavours htarget hnodup hcomplete
    · exact (of_promoteStep_ok hflavours htarget hupload).2.2

end Distinct

end Complete

/-! ## A flavour that is generated twice -/

/-- The release of `gcp` with `_prod`. -/
def prodRelease : OnlineReleaseManifest :=
  ⟨⟨⟨"5b1e9f03", "576.0", 576, .amd64, "gcp",
      ["base", "cloud", "server", "_nopkg", "_prod", "_readonly", "_slim"]⟩, "2022-01-24T12:00:00",
    [], none, none⟩, "", "", none, none⟩

def prodBucket : Bucket :=
  (∅ : Bucket).insert "meta/singles/gcp-cloud-_prod-576.0-5b1e9f" (.manifest prodRelease)

def promoteGcp (modifiers : List (List String)) : PromoteStepArgs :=
  ⟨gcpFlavours modifiers, [.build, .manifest], 576, "5b1e9f03", "576.0", .release,
    fun _ _ => .sorted, GardenlinuxFlavour.sorted, fun _ => ⟨.sorted, .sorted, .sorted⟩,
    "20220124-120000"⟩

theorem promoteStep_complete_prod :
    PublishedWhenComplete repositoryConfig "gardenlinux" (promoteGcp [["_prod"]]) prodBucket
      [⟨.amd64, "gcp", ["base", "cloud", "server", "_nopkg", "_prod", "_readonly", "_slim"]⟩] :=
  (promoteStep_complete_iff (by decide +kernel) (by decide)).2 (Or.inl (List.nodup_singleton _))

/-- With and without the flag that `_prod` includes. -/
theorem promoteStep_complete_fails :
    ¬ ∀ (config : Config) (bucketName : String) (args : PromoteStepArgs) (bucket : Bucket)
        (flavours : List GardenlinuxFlavour),
      args.flavourSet.flavours args.flavourOrders config = .ok flavours →
      .manifest ∈ args.buildTargets →
      PublishedWhenComplete config bucketName args bucket flavours := by
  intro h
  have hpublished := h repositoryConfig "gardenlinux" (promoteGcp [["_prod"], ["_nopkg", "_prod"]])
    prodBucket
    [⟨.amd64, "gcp", ["base", "cloud", "server", "_nopkg", "_prod", "_readonly", "_slim"]⟩,
      ⟨.amd64, "gcp", ["base", "cloud", "server", "_nopkg", "_prod", "_readonly", "_slim"]⟩]
    (by decide +kernel) (by decide)
  have hcomplete : Complete repositoryConfig "gardenlinux"
      (promoteGcp [["_prod"], ["_nopkg", "_prod"]]) prodBucket
      [⟨.amd64, "gcp", ["base", "cloud", "server", "_nopkg", "_prod", "_readonly", "_slim"]⟩,
        ⟨.amd64, "gcp", ["base", "cloud", "server", "_nopkg", "_prod", "_readonly", "_slim"]⟩] := by
    intro flavour hflavour
    obtain rfl : flavour =
        ⟨.amd64, "gcp", ["base", "cloud", "server", "_nopkg", "_prod", "_readonly", "_slim"]⟩ := by
      simpa using hflavour
    exact ⟨{ prodRelease with
      s3Key := "meta/singles/gcp-cloud-_prod-576.0-5b1e9f", s3Bucket := "gardenlinux" },
      by unfold ReleaseOf; decide +kernel⟩
  obtain ⟨upload, hupload⟩ := hpublished.1.2 hcomplete
  have hexit : (promoteStep repositoryConfig "gardenlinux"
      (promoteGcp [["_prod"], ["_nopkg", "_prod"]]) prodBucket).toOption.isNone := by
    decide +kernel
  rw [hupload] at hexit
  exact nomatch hexit

end Glci
