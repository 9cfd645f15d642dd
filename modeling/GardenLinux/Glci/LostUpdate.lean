import GardenLinux.Lib.SharedCell
import GardenLinux.Glci.Steps
import GardenLinux.Glci.ManifestKey

/-!
# Updates of a manifest that are lost

Promoting, uploading test results and attaching logs read the manifest of a release, work
for a while, and write the whole manifest back.  Nothing keeps two of them from working on
the same manifest at the same time.

What is proved here:

* `history_refines` — seen from one key, a run of the steps is one of clients of a shared
  cell;
* `stored_carries` — as long as no step of another kind writes the key between a step's read
  and its write, the stored manifest carries what was written last of every attribute;
* `stored_loses_metadata` — otherwise an attribute is reverted.
-/

namespace Glci

open GardenFeat System

variable {ι : Type}

/-! ## Runs of steps -/

/-- The steps run, each call of theirs in its turn. -/
def runSteps [DecidableEq ι] (bucketName : String) (bucket : Bucket) (steps : ι → ManifestStep)
    (schedule : List ι) : System s3 Bucket ι (Except Exit Unit) :=
  run s3Service (System.start bucket fun i => ((steps i).process bucketName).run) schedule

/-- Since its last read, which is of `key`, only steps of its kind wrote `key`. -/
def ReadCurrent [DecidableEq ι] (steps : ι → ManifestStep) (key : String) (i : ι) : List (Event s3 ι) → Prop
  | [] => False
  | ⟨j, .getObject readKey, _⟩ :: older =>
    if j = i then readKey = key else ReadCurrent steps key i older
  | ⟨j, .putObject writtenKey _, _⟩ :: older =>
    j ≠ i ∧ (writtenKey = key → (steps j).field = (steps i).field) ∧
      ReadCurrent steps key i older

/-- Between a step's read of `key` and its write no step of another kind writes `key`. -/
def Undisturbed [DecidableEq ι] (steps : ι → ManifestStep) (key : String) : List (Event s3 ι) → Prop
  | [] => True
  | ⟨_, .getObject _, _⟩ :: older => Undisturbed steps key older
  | ⟨i, .putObject writtenKey _, _⟩ :: older =>
    (writtenKey = key → ReadCurrent steps key i older) ∧ Undisturbed steps key older

instance ReadCurrent.decidable [DecidableEq ι] (steps : ι → ManifestStep) (key : String) (i : ι) :
    ∀ h, Decidable (ReadCurrent steps key i h)
  | [] => inferInstanceAs (Decidable False)
  | ⟨j, .getObject readKey, _⟩ :: older =>
    have := ReadCurrent.decidable steps key i older
    inferInstanceAs (Decidable (if j = i then readKey = key else ReadCurrent steps key i older))
  | ⟨j, .putObject writtenKey _, _⟩ :: older =>
    have := ReadCurrent.decidable steps key i older
    inferInstanceAs (Decidable (j ≠ i ∧ (writtenKey = key → (steps j).field = (steps i).field) ∧
      ReadCurrent steps key i older))

instance Undisturbed.decidable [DecidableEq ι] (steps : ι → ManifestStep) (key : String) :
    ∀ h, Decidable (Undisturbed steps key h)
  | [] => inferInstanceAs (Decidable True)
  | ⟨_, .getObject _, _⟩ :: older => Undisturbed.decidable steps key older
  | ⟨i, .putObject writtenKey _, _⟩ :: older =>
    have := Undisturbed.decidable steps key older
    inferInstanceAs (Decidable ((writtenKey = key → ReadCurrent steps key i older) ∧
      Undisturbed steps key older))

/-- The manifest that an event writes under `key`, when a step of the kind wrote it. -/
def written (steps : ι → ManifestStep) (key : String) (f : ManifestField) (e : Event s3 ι) :
    Option OnlineReleaseManifest :=
  match e.call with
  | .putObject writtenKey (.manifest m) =>
    if writtenKey = key ∧ (steps e.client).field = f then some m else none
  | _ => none

/-- The manifest that a step of a kind wrote last under `key`. -/
def lastWritten (steps : ι → ManifestStep) (key : String) (f : ManifestField)
    (history : List (Event s3 ι)) : Option OnlineReleaseManifest :=
  history.findSome? (written steps key f)

/-- Every attribute is as the last step of its kind wrote it, and the rest as at the
start. -/
structure Carries (steps : ι → ManifestStep) (key : String) (initial : OnlineReleaseManifest)
    (history : List (Event s3 ι)) (m : OnlineReleaseManifest) : Prop where
  fields : ∀ f : ManifestField,
    f.get m = f.get ((lastWritten steps key f history).getD initial)
  bare : m.bare = initial.bare

/-! ## One key as a shared cell -/

/-- A patch overwrites an attribute with that of a manifest. -/
abbrev Patch := ManifestField × OnlineReleaseManifest

def Patch.apply (p : Patch) (m : OnlineReleaseManifest) : OnlineReleaseManifest :=
  p.1.overwrite p.2 m

/-- What an event means for the manifest under `key`. -/
def access (steps : ι → ManifestStep) (key : String) (e : Event s3 ι) :
    SharedCell.Access ι Patch :=
  match e.call with
  | .getObject readKey => if readKey = key then .read e.client else .forget e.client
  | .putObject writtenKey (.manifest m) =>
    if writtenKey = key then .write e.client ((steps e.client).field, m) else .forget e.client
  | .putObject _ _ => .forget e.client

variable {steps : ι → ManifestStep} {key : String} {h : List (Event s3 ι)}

/-- A write is one of a manifest under the key, or it does not matter. -/
theorem access_putObject (steps : ι → ManifestStep) (key : String) (i : ι) (writtenKey : String)
    (object : S3Object) (answer : Unit) :
    (∃ m, object = .manifest m ∧ writtenKey = key ∧
      access steps key ⟨i, .putObject writtenKey object, answer⟩ =
        .write i ((steps i).field, m)) ∨
    ((∀ m, object = .manifest m → writtenKey ≠ key) ∧
      access steps key ⟨i, .putObject writtenKey object, answer⟩ = .forget i) := by
  cases object with
  | manifest m =>
    by_cases hkey : writtenKey = key
    · exact Or.inl ⟨m, rfl, hkey, if_pos hkey⟩
    · exact Or.inr ⟨fun _ _ => hkey, if_neg hkey⟩
  | manifestSet m => exact Or.inr ⟨fun _ hm => (nomatch hm), rfl⟩
  | directory => exact Or.inr ⟨fun _ hm => (nomatch hm), rfl⟩
  | data => exact Or.inr ⟨fun _ hm => (nomatch hm), rfl⟩

@[simp] theorem access_client (e : Event s3 ι) : (access steps key e).client = e.client := by
  unfold access
  split
  · split <;> rfl
  · split <;> rfl
  · rfl

section Undisturbed

variable [DecidableEq ι]

theorem fresh_of_readCurrent {i : ι} (new : OnlineReleaseManifest)
    (hi : ReadCurrent steps key i h) :
    SharedCell.Fresh Patch.apply ((steps i).field, new) i (h.map (access steps key)) := by
  induction h with
  | nil => exact hi
  | cons e older ih =>
    obtain ⟨j, call, answer⟩ := e
    cases call with
    | getObject readKey =>
      rw [List.map_cons, access]
      dsimp only
      by_cases hj : j = i
      · rw [ReadCurrent, if_pos hj] at hi
        rw [if_pos hi]
        exact Or.inl hj
      · rw [ReadCurrent, if_neg hj] at hi
        split
        · exact Or.inr (ih hi)
        · exact ⟨hj, ih hi⟩
    | putObject writtenKey object =>
      obtain ⟨hj, hkind, hi⟩ := hi
      rw [List.map_cons]
      obtain ⟨m, -, hkey, haccess⟩ | ⟨-, haccess⟩ :=
        access_putObject steps key j writtenKey object answer
      · rw [haccess]
        refine ⟨hj, fun m' => ?_, ih hi⟩
        -- a step of the same kind overwrites the same attribute
        rw [hkind hkey]
        exact ManifestField.overwrite_overwrite ..
      · rw [haccess]
        exact ⟨hj, ih hi⟩

theorem undisturbed_accesses (hund : Undisturbed steps key h) :
    SharedCell.Undisturbed Patch.apply (h.map (access steps key)) := by
  induction h with
  | nil => trivial
  | cons e older ih =>
    obtain ⟨i, call, answer⟩ := e
    cases call with
    | getObject readKey =>
      rw [List.map_cons, access]
      dsimp only
      split <;> exact ih hund
    | putObject writtenKey object =>
      rw [List.map_cons]
      obtain ⟨m, -, hkey, haccess⟩ | ⟨-, haccess⟩ :=
        access_putObject steps key i writtenKey object answer
      · rw [haccess]
        exact ⟨fresh_of_readCurrent m (hund.1 hkey), ih hund.2⟩
      · rw [haccess]
        exact ih hund.2

end Undisturbed

theorem lastPatch_accesses (f : ManifestField) :
    SharedCell.lastPatch Prod.fst f (h.map (access steps key)) =
      (lastWritten steps key f h).map (f, ·) := by
  induction h with
  | nil => rfl
  | cons e older ih =>
    obtain ⟨i, call, answer⟩ := e
    rw [List.map_cons, lastWritten, List.findSome?_cons]
    cases call with
    | getObject readKey =>
      rw [access]
      dsimp only
      split <;> exact ih
    | putObject writtenKey object =>
      obtain ⟨m, rfl, rfl, haccess⟩ | ⟨hnot, haccess⟩ :=
        access_putObject steps key i writtenKey object answer
      · rw [haccess, SharedCell.lastPatch, written]
        dsimp only
        by_cases hf : (steps i).field = f
        · rw [if_pos hf, if_pos ⟨rfl, hf⟩, hf]
          rfl
        · rw [if_neg hf, if_neg fun h => hf h.2]
          exact ih
      · have hnone : written steps key f ⟨i, .putObject writtenKey object, answer⟩ = none := by
          cases object with
          | manifest m => exact if_neg fun h => hnot m rfl h.1
          | manifestSet m => rfl
          | directory => rfl
          | data => rfl
        rw [haccess, hnone]
        exact ih

/-- The value that the patches give one after the other carries what was written last. -/
theorem carries_serial (initial : OnlineReleaseManifest) :
    Carries steps key initial h
      (SharedCell.serial Patch.apply initial (h.map (access steps key))) where
  fields f := by
    have hset : ∀ (p : Patch) (v w : OnlineReleaseManifest),
        p.1.get (p.apply v) = p.1.get (p.apply w) := fun p v w => by simp [Patch.apply]
    have hkeep : ∀ (p : Patch) (v : OnlineReleaseManifest) (f : ManifestField), f ≠ p.1 →
        f.get (p.apply v) = f.get v := fun p v f hf => ManifestField.get_overwrite_of_ne hf ..
    rw [SharedCell.part_serial (F := ManifestField.Value) hset hkeep, lastPatch_accesses]
    cases lastWritten steps key f h with
    | none => rfl
    | some m => exact ManifestField.get_overwrite_self f m initial
  bare := SharedCell.serial_keeps initial
    (fun (p : Patch) m => ManifestField.bare_overwrite p.1 p.2 m) _

/-! ## The simulation -/

variable [DecidableEq ι] {bucketName : String} {bucket : Bucket} {initial : OnlineReleaseManifest}

/-- The cell after what a history means for the manifest under `key`. -/
def cell (steps : ι → ManifestStep) (key : String) (initial : OnlineReleaseManifest)
    (h : List (Event s3 ι)) : SharedCell.Cell ι OnlineReleaseManifest :=
  SharedCell.after Patch.apply initial (h.map (access steps key))

/-- The manifest under the key is the value of the cell, and what a step remembers of the
key is its copy. -/
structure Refines (bucketName : String) (bucket : Bucket) (steps : ι → ManifestStep)
    (key : String) (initial : OnlineReleaseManifest) (h : List (Event s3 ι)) : Prop where
  value : releaseManifest bucketName (replay s3Service bucket h) key true =
    .ok (some (cell steps key initial h).value)
  copies : ∀ i m, (cell steps key initial h).copies i = some m ↔
    memory (editing bucketName (steps i)) none i h = some (key, m)

/-- What a step remembers is a manifest as it was read. -/
theorem memory_read {i : ι} {readKey : String} {m : OnlineReleaseManifest}
    (hm : memory (editing bucketName (steps i)) none i h = some (readKey, m)) :
    m.s3Key = readKey ∧ m.s3Bucket = bucketName := by
  induction h with
  | nil => exact nomatch hm
  | cons e older ih =>
    by_cases hi : e.client = i
    · subst hi
      rw [memory_self] at hm
      obtain ⟨j, call, answer⟩ := e
      cases call with
      | getObject key => exact ⟨(remembered_some hm).2.1, (remembered_some hm).2.2.1⟩
      | putObject key object => exact nomatch hm
    · rw [memory_of_ne _ _ hi] at hm
      exact ih hm

/-- An event concerns the copy of its client only. -/
theorem Refines.cons {e : Event s3 ι} {older : List (Event s3 ι)}
    (holder : Refines bucketName bucket steps key initial older)
    (hvalue : releaseManifest bucketName (replay s3Service bucket (e :: older)) key true =
      .ok (some (cell steps key initial (e :: older)).value))
    (hself : ∀ m, (cell steps key initial (e :: older)).copies e.client = some m ↔
      memory (editing bucketName (steps e.client)) none e.client (e :: older) = some (key, m)) :
    Refines bucketName bucket steps key initial (e :: older) where
  value := hvalue
  copies i m := by
    by_cases hi : e.client = i
    · subst hi
      exact hself m
    · rw [memory_of_ne _ _ hi, ← holder.copies i m, cell, cell, List.map_cons,
        SharedCell.copies_of_ne _ ((access_client e).symm ▸ hi)]

theorem Refines.getObject {j : ι} {readKey : String} {answer : Option S3Object}
    {older : List (Event s3 ι)} (holder : Refines bucketName bucket steps key initial older)
    (hanswer : answer = (replay s3Service bucket older).lookup readKey) :
    Refines bucketName bucket steps key initial (⟨j, .getObject readKey, answer⟩ :: older) := by
  by_cases hkey : readKey = key
  · subst hkey
    have haccess : access steps readKey ⟨j, .getObject readKey, answer⟩ = .read j := if_pos rfl
    refine holder.cons ?_ fun m => ?_
    · rw [cell, List.map_cons, haccess, SharedCell.value_read]
      exact holder.value
    · rw [cell, List.map_cons, haccess, SharedCell.copies_read, memory_self]
      have hread : deserialise bucketName readKey true answer =
          .ok (some (cell steps readKey initial older).value) := hanswer ▸ holder.value
      show _ ↔ remembered bucketName readKey answer = _
      rw [remembered_of_deserialise hread]
      simp [cell]
  · have haccess : access steps key ⟨j, .getObject readKey, answer⟩ = .forget j := if_neg hkey
    refine holder.cons ?_ fun m => ?_
    · rw [cell, List.map_cons, haccess, SharedCell.value_forget]
      exact holder.value
    · rw [cell, List.map_cons, haccess, SharedCell.copies_forget, memory_self]
      exact ⟨fun h => (nomatch h), fun h => absurd (remembered_some h).1 hkey⟩

theorem Refines.putObject {j : ι} {writtenKey : String} {object : S3Object} {answer : Unit}
    {older : List (Event s3 ι)} (holder : Refines bucketName bucket steps key initial older)
    (hallowed : (editing bucketName (steps j)).Allowed
      (memory (editing bucketName (steps j)) none j older) (.putObject writtenKey object))
    (hund : Undisturbed steps key older)
    (hcurrent : writtenKey = key → ReadCurrent steps key j older) :
    Refines bucketName bucket steps key initial
      (⟨j, .putObject writtenKey object, answer⟩ :: older) := by
  obtain ⟨readKey, m, new, hheld, hedit, rfl⟩ := hallowed
  by_cases hkey : writtenKey = key
  · subst hkey
    have haccess : access steps writtenKey ⟨j, .putObject writtenKey (.manifest new), answer⟩ =
      .write j ((steps j).field, new) := if_pos rfl
    -- the step holds a copy of what it read under the key
    obtain ⟨copy, hcopy⟩ := SharedCell.exists_copy initial (undisturbed_accesses hund)
      (fresh_of_readCurrent new (hcurrent rfl))
    have hmemory := (holder.copies j copy).1 hcopy
    obtain ⟨rfl, rfl⟩ := Prod.mk.inj (Option.some.inj (hheld.symm.trans hmemory))
    have hnew : new = (steps j).field.overwrite new m := ManifestStep.overwrites hedit
    refine holder.cons ?_ fun m' => ?_
    · rw [cell, List.map_cons, haccess, SharedCell.value_write initial hcopy]
      show releaseManifest bucketName ((replay s3Service bucket older).insert readKey
        (.manifest new)) readKey true = .ok (some ((steps j).field.overwrite new m))
      obtain ⟨hs3Key, hs3Bucket⟩ := memory_read hmemory
      have hkey : new.s3Key = readKey := by rw [hnew, ManifestField.s3Key_overwrite, hs3Key]
      have hbucket : new.s3Bucket = bucketName := by
        rw [hnew, ManifestField.s3Bucket_overwrite, hs3Bucket]
      have hpatched : { new with s3Key := readKey, s3Bucket := bucketName } = new := by
        rw [← hkey, ← hbucket]
      rw [releaseManifest, AList.lookup_insert, deserialise, hpatched, ← hnew]
    · rw [cell, List.map_cons, haccess, SharedCell.copies_write, memory_self]
      constructor
      · intro hcopy
        cases hcopy
      · intro hcopy
        cases hcopy
  · have haccess : access steps key ⟨j, .putObject writtenKey (.manifest new), answer⟩ =
      .forget j := if_neg hkey
    refine holder.cons ?_ fun m' => ?_
    · rw [cell, List.map_cons, haccess, SharedCell.value_forget]
      show deserialise bucketName key true
        (((replay s3Service bucket older).insert writtenKey (.manifest new)).lookup key) = _
      rw [AList.lookup_insert_ne (Ne.symm hkey)]
      exact holder.value
    · rw [cell, List.map_cons, haccess, SharedCell.copies_forget, memory_self]
      constructor
      · intro hcopy
        cases hcopy
      · intro hcopy
        cases hcopy

/-- Seen from a key with a manifest, an undisturbed run is one of a shared cell. -/
theorem history_refines
    (hinitial : releaseManifest bucketName bucket key true = .ok (some initial))
    (hlegal : Legal s3Service bucket (fun i => editing bucketName (steps i)) none h)
    (hund : Undisturbed steps key h) : Refines bucketName bucket steps key initial h := by
  induction h with
  | nil => exact ⟨hinitial, fun i m => by simp [cell, SharedCell.after, memory]⟩
  | cons e older ih =>
    obtain ⟨j, call, answer⟩ := e
    obtain ⟨hanswer, hallowed, hlegal⟩ := hlegal
    cases call with
    | getObject readKey => exact (ih hlegal hund).getObject hanswer
    | putObject writtenKey object =>
      exact (ih hlegal hund.2).putObject hallowed hund.2 hund.1

/-! ## What a run leaves -/

theorem Undisturbed.of_suffix {older : List (Event s3 ι)} (hsuffix : older <:+ h)
    (hund : Undisturbed steps key h) : Undisturbed steps key older := by
  induction h with
  | nil =>
    obtain rfl := List.suffix_nil.1 hsuffix
    exact hund
  | cons e rest ih =>
    rcases List.suffix_cons_iff.1 hsuffix with rfl | hsuffix
    · exact hund
    · refine ih hsuffix ?_
      obtain ⟨i, call, answer⟩ := e
      cases call with
      | getObject readKey => exact hund
      | putObject writtenKey object => exact hund.2

theorem runSteps_legal (bucketName : String) (bucket : Bucket) (steps : ι → ManifestStep)
    (schedule : List ι) :
    Legal s3Service bucket (fun i => editing bucketName (steps i)) none
      (runSteps bucketName bucket steps schedule).history :=
  run_legal (fun i => (steps i).safe bucketName) schedule

/-- No update is lost as long as no step of another kind writes the manifest between a
step's read and its write: after every part of the run the stored manifest carries every
attribute as the last step of its kind wrote it; and each step wrote its own edit. -/
theorem stored_carries (steps : ι → ManifestStep) (schedule : List ι)
    (hinitial : releaseManifest bucketName bucket key true = .ok (some initial))
    (hund : Undisturbed steps key (runSteps bucketName bucket steps schedule).history) :
    (∀ taken, taken <+: schedule → ∃ m,
      releaseManifest bucketName (runSteps bucketName bucket steps taken).store key true =
        .ok (some m) ∧
      Carries steps key initial (runSteps bucketName bucket steps taken).history m) ∧
    ∀ i m, ⟨i, .putObject key (.manifest m), ()⟩ ∈
        (runSteps bucketName bucket steps schedule).history →
      ∃ old, (steps i).Edits bucketName old m := by
  constructor
  · rintro taken ⟨rest, rfl⟩
    have hsuffix : (runSteps bucketName bucket steps taken).history <:+
        (runSteps bucketName bucket steps (taken ++ rest)).history := by
      rw [runSteps, runSteps, run_append]
      exact history_suffix ..
    have hund' := hund.of_suffix hsuffix
    have href := history_refines hinitial (runSteps_legal bucketName bucket steps taken) hund'
    have hstore : (runSteps bucketName bucket steps taken).store =
        replay s3Service bucket (runSteps bucketName bucket steps taken).history := run_store ..
    refine ⟨_, (congrArg (releaseManifest bucketName · key true) hstore).trans href.value, ?_⟩
    rw [cell, SharedCell.value_eq_serial initial (undisturbed_accesses hund')]
    exact carries_serial initial
  · intro i m hm
    obtain ⟨g, readKey, old, new, -, hedit, hobject⟩ :=
      (runSteps_legal bucketName bucket steps schedule).allowed hm
    obtain rfl := S3Object.manifest.inj hobject
    exact ⟨old, hedit⟩

/-! ## A lost update -/

/-- The manifest of a release that was built. -/
def builtManifest : OnlineReleaseManifest :=
  { awsRelease ["gardener", "server"] with
    buildTimestamp := "2022-01-24T12:00:00"
    paths := [⟨"rootfs.raw", ".raw", "objects/1f", "gardenlinux"⟩]
    baseImage := none
    publishedImageMetadata := none
    s3Key := ""
    s3Bucket := ""
    testResult := none
    logs := none }

def builtKey : String := "meta/singles/aws-gardener-576.0-5b1e9f"

def builtBucket : Bucket := uploadReleaseManifest ∅ builtKey builtManifest

def sortedFind : FindOrders := ⟨.sorted, .sorted, .sorted⟩

def exampleConfig : Config :=
  ⟨asciiUpper, platformWithElement, "publisher", "offer", "plan", fun version => .ok version⟩

def exampleImage : PublishedImage := .aws [⟨"ami-1", "eu-central-1", "gardenlinux-576.0"⟩]

def exampleResult : ReleaseTestResult := ⟨"default", .ok, "2022-01-24T13:00:00"⟩

/-- A test upload (`false`) and a promotion (`true`) of the release. -/
def testAndPromote : Bool → ManifestStep
  | false => .uploadTestResults exampleConfig
      ⟨"5b1e9f03", .amd64, "aws", 576, "gardener", "576.0", [.build, .manifest, .tests], false,
        .testResult exampleResult, sortedFind, .sorted⟩
  | true => .promote exampleConfig
      ⟨"5b1e9f03", .amd64, "aws", 576, "gardener", "576.0",
        [.build, .manifest, .componentDescriptor, .publish], fun _ => .ok exampleImage,
        .sorted, sortedFind, .sorted⟩

/-- One after the other both leave their attribute. -/
theorem stored_carries_testAndPromote :
    (∀ taken, taken <+: [false, false, true, true] → ∃ m,
      releaseManifest "gardenlinux" (runSteps "gardenlinux" builtBucket testAndPromote taken).store
        builtKey true = .ok (some m) ∧
      Carries testAndPromote builtKey
        { builtManifest with s3Key := builtKey, s3Bucket := "gardenlinux" }
        (runSteps "gardenlinux" builtBucket testAndPromote taken).history m) ∧
    ∀ i m, ⟨i, .putObject builtKey (.manifest m), ()⟩ ∈
        (runSteps "gardenlinux" builtBucket testAndPromote [false, false, true, true]).history →
      ∃ old, (testAndPromote i).Edits "gardenlinux" old m :=
  stored_carries testAndPromote [false, false, true, true] (by decide +kernel) (by decide +kernel)

/-- When the promotion reads and writes while the test upload holds its copy, both succeed,
and the published images are not in the stored manifest. -/
theorem stored_loses_metadata :
    ¬ ∀ (bucketName key : String) (bucket : Bucket) (initial : OnlineReleaseManifest)
        (steps : Bool → ManifestStep) (schedule : List Bool),
      releaseManifest bucketName bucket key true = .ok (some initial) →
      (∀ e ∈ (runSteps bucketName bucket steps schedule).history, e.call.key = key) →
      (∀ i, succeeded ((runSteps bucketName bucket steps schedule).processes i)) →
      ∃ m, releaseManifest bucketName (runSteps bucketName bucket steps schedule).store key true =
          .ok (some m) ∧
        Carries steps key initial (runSteps bucketName bucket steps schedule).history m := by
  intro h
  obtain ⟨m, hm, hcarries⟩ := h "gardenlinux" builtKey builtBucket
    { builtManifest with s3Key := builtKey, s3Bucket := "gardenlinux" } testAndPromote
    [false, true, true, false] (by decide +kernel) (by decide +kernel) (by decide +kernel)
  have hstored : releaseManifest "gardenlinux"
      (runSteps "gardenlinux" builtBucket testAndPromote [false, true, true, false]).store
      builtKey true = .ok (some { builtManifest with
        s3Key := builtKey, s3Bucket := "gardenlinux", testResult := some exampleResult }) := by
    decide +kernel
  have hpublished : lastWritten testAndPromote builtKey .publishedImageMetadata
      (runSteps "gardenlinux" builtBucket testAndPromote [false, true, true, false]).history =
      some { builtManifest with
        s3Key := builtKey, s3Bucket := "gardenlinux",
        publishedImageMetadata := some exampleImage } := by
    decide +kernel
  obtain rfl := Option.some.inj (Except.ok.inj (hm.symm.trans hstored))
  have hfield := hcarries.fields .publishedImageMetadata
  rw [hpublished] at hfield
  exact absurd hfield (by decide)

end Glci
