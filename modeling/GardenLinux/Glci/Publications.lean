import GardenLinux.Glci.Staging

/-!
# Publications at the same time

Several publications run next to each other, and the service makes their images when it is its
turn.  A publication is at its object from the upload until it has come to its end and the service
has made, or given up, the image that it asked for.

What is proved here:

* `Settled.turn`, `Settled.frame` and `Settled.work` — what a publication relies on is kept by its
  own calls, by those of others that leave it alone, and by the service;
* `publications_unmixed` — as long as no publication stages an object that another one is still
  at, or drops an entry of the plan that another one needs, each image is made from the artifact
  of its own release, and no object is deleted that another publication needs;
* `publications_mixed` — otherwise two releases of one version may mix up their artifacts.
-/

namespace Glci

open GardenFeat Process

/-! ## What a publication is at -/

/-- An image that a publication has asked for, and of which copies it should consist. -/
structure Asked where
  object : StagingObject
  content : List S3ReleaseFile
  source : ImageSource
  image : ℕ
  deriving DecidableEq

/-- What there is under one condition is there under a weaker one. -/
theorem some_of_ite {α : Type} {p q : Prop} [Decidable p] [Decidable q] {a b : α} (hpq : p → q)
    (h : (if p then some a else none) = some b) : (if q then some a else none) = some b := by
  split at h
  · next hp => rwa [if_pos (hpq hp)]
  · exact nomatch h

namespace Stage

/-- The object that the image of a publication is yet to be made of. -/
def needed (running : Bool) (isPending : ℕ → Bool) : Stage → Option StagingObject
  | .idle => none
  | .staged object _ => if running then some object else none
  | .listed object _ _ => if running then some object else none
  | .imported object _ _ image => if isPending image then some object else none
  | .removed object _ image => if isPending image then some object else none

/-- The object that a publication is at: it is yet to be read, or to be deleted. -/
def held (running : Bool) (isPending : ℕ → Bool) : Stage → Option StagingObject
  | .imported object _ _ image => if running ∨ isPending image then some object else none
  | stage => stage.needed running isPending

/-- The entry of the plan that an image is yet to be made by. -/
def entry (running : Bool) (isPending : ℕ → Bool) : Stage → Option (String × StagingObject)
  | .listed object _ version => if running then some (version, object) else none
  | .imported object _ (.plan version) image =>
    if isPending image then some (version, object) else none
  | _ => none

/-- What the object should consist of. -/
def expected : Stage → Option (List S3ReleaseFile)
  | .idle => none
  | .staged _ content => some content
  | .listed _ content _ => some content
  | .imported _ content _ _ => some content
  | .removed _ _ _ => none

def asked : Stage → Option Asked
  | .imported object content source image => some ⟨object, content, source, image⟩
  | .removed object content image => some ⟨object, content, .object object, image⟩
  | _ => none

/-- What is asked for or named in the plan is a copy of the artifact. -/
def Whole (b : CloudBehaviour) (p : Publication) : Stage → Prop
  | .listed object content _ => IsCopy b p object content
  | .imported object content source _ =>
    IsCopy b p object content ∧ (source = .object object ∨ ∃ version, source = .plan version)
  | .removed object content _ => IsCopy b p object content
  | _ => True

variable {running running' : Bool} {isPending isPending' : ℕ → Bool} {stage : Stage}
  {object : StagingObject}

theorem held_of_needed (h : stage.needed running isPending = some object) :
    stage.held running isPending = some object := by
  cases stage with
  | imported object' content source image => exact some_of_ite Or.inr h
  | _ => exact h

theorem held_imported {content : List S3ReleaseFile} {source : ImageSource} {image : ℕ} :
    (imported object content source image).held true isPending = some object := by
  simp [held]

/-- A publication that has come to its end is at less. -/
theorem needed_of_running (h : stage.needed running isPending = some object) :
    stage.needed true isPending = some object := by
  cases stage with
  | staged object' content => exact some_of_ite (q := true = true) (fun _ => rfl) h
  | listed object' content version => exact some_of_ite (q := true = true) (fun _ => rfl) h
  | _ => exact h

theorem held_of_running (h : stage.held running isPending = some object) :
    stage.held true isPending = some object := by
  cases stage with
  | imported object' content source image =>
    exact some_of_ite (q := true = true ∨ isPending image = true) (fun _ => Or.inl rfl) h
  | _ =>
    simp only [held] at h ⊢
    exact needed_of_running h

theorem entry_of_running {entry : String × StagingObject}
    (h : stage.entry running isPending = some entry) :
    stage.entry true isPending = some entry := by
  cases stage with
  | listed object' content version => exact some_of_ite (q := true = true) (fun _ => rfl) h
  | imported object' content source image => cases source <;> exact h
  | _ => exact h

section Mono

variable (hpending : ∀ image, isPending' image = true → isPending image = true)

include hpending

/-- Fewer pending images need fewer objects. -/
theorem needed_mono (h : stage.needed running isPending' = some object) :
    stage.needed running isPending = some object := by
  cases stage with
  | imported object' content source image => exact some_of_ite (hpending image) h
  | removed object' content image => exact some_of_ite (hpending image) h
  | _ => exact h

theorem held_mono (h : stage.held running isPending' = some object) :
    stage.held running isPending = some object := by
  cases stage with
  | imported object' content source image =>
    exact some_of_ite (Or.imp_right (hpending image)) h
  | _ =>
    simp only [held] at h ⊢
    exact needed_mono hpending h

theorem entry_mono {entry : String × StagingObject}
    (h : stage.entry running isPending' = some entry) :
    stage.entry running isPending = some entry := by
  cases stage with
  | imported object' content source image =>
    cases source with
    | object source => exact h
    | plan version => exact some_of_ite (hpending image) h
  | _ => exact h

end Mono

end Stage

/-- What one publication relies on. -/
structure Settled (b : CloudBehaviour) (p : Publication) (cloud : Cloud) (running : Bool)
    (stage : Stage) : Prop where
  own : ∀ object, stage.needed running cloud.isPending = some object →
    cloud.objects.lookup object = stage.expected
  entry : ∀ version object, stage.entry running cloud.isPending = some (version, object) →
    cloud.plan.lookup version = some object
  whole : stage.Whole b p
  image : ∀ a, stage.asked = some a → ∃ image, cloud.images[a.image]? = some image ∧
    image.source = a.source ∧ ∀ result, image.state = .made result → result = a.content

section Settled

variable {b : CloudBehaviour} {p : Publication} {cloud cloud' : Cloud} {running : Bool}
  {stage stage' : Stage} {c : StagingCall} {object : StagingObject} {a : Asked}

/-- An image that is there keeps its place. -/
theorem isPending_of_kept {k : ℕ} {image : CloudImage} (himages : cloud.images <+: cloud'.images)
    (h : cloud.images[k]? = some image) :
    cloud'.images[k]? = some image ∧ cloud'.isPending k = cloud.isPending k := by
  obtain ⟨more, hmore⟩ := himages
  have hlt := (List.getElem?_eq_some_iff.1 h).1
  have hkeep : cloud'.images[k]? = cloud.images[k]? := by
    rw [← hmore, List.getElem?_append_left hlt]
  refine ⟨hkeep.trans h, ?_⟩
  rw [Cloud.isPending, Cloud.isPending, hkeep]

/-- Images are only added, so what a publication has asked for is as pending as before. -/
theorem Settled.isPending_eq (h : Settled b p cloud running stage)
    (himages : cloud.images <+: cloud'.images) (hasked : stage.asked = some a) :
    cloud'.isPending a.image = cloud.isPending a.image := by
  obtain ⟨image, himage, -⟩ := h.image a hasked
  exact (isPending_of_kept himages himage).2

/-- What depends on the images of a publication only through those it has asked for. -/
theorem Settled.stage_eq (h : Settled b p cloud running stage)
    (himages : cloud.images <+: cloud'.images) :
    stage.needed running cloud'.isPending = stage.needed running cloud.isPending ∧
      stage.held running cloud'.isPending = stage.held running cloud.isPending ∧
      stage.entry running cloud'.isPending = stage.entry running cloud.isPending := by
  cases stage with
  | idle => exact ⟨rfl, rfl, rfl⟩
  | staged object content => exact ⟨rfl, rfl, rfl⟩
  | listed object content version => exact ⟨rfl, rfl, rfl⟩
  | imported object content source image =>
    have hsame := h.isPending_eq himages rfl
    cases source <;> simp [Stage.needed, Stage.held, Stage.entry, hsame]
  | removed object content image =>
    have hsame := h.isPending_eq himages rfl
    simp [Stage.needed, Stage.held, Stage.entry, hsame]

/-- A call of another publication that leaves alone what this one relies on. -/
theorem Settled.frame (h : Settled b p cloud running stage)
    (hobjects : ∀ object, stage.needed running cloud.isPending = some object →
      cloud'.objects.lookup object = cloud.objects.lookup object)
    (hplan : ∀ version object, stage.entry running cloud.isPending = some (version, object) →
      cloud'.plan.lookup version = some object)
    (himages : cloud.images <+: cloud'.images) : Settled b p cloud' running stage := by
  obtain ⟨hneeded, -, hentry⟩ := h.stage_eq himages
  refine ⟨fun object hobject => ?_, fun version object hlisted => ?_, h.whole,
    fun a hasked => ?_⟩
  · rw [hneeded] at hobject
    rw [hobjects object hobject, h.own object hobject]
  · rw [hentry] at hlisted
    exact hplan version object hlisted
  · obtain ⟨image, himage, hrest⟩ := h.image a hasked
    exact ⟨image, (isPending_of_kept himages himage).1, hrest⟩

/-- A publication that has come to its end relies on less. -/
theorem Settled.stop (h : Settled b p cloud true stage) : Settled b p cloud running stage :=
  ⟨fun object hneeded => h.own object (Stage.needed_of_running hneeded),
    fun version object hlisted => h.entry version object (Stage.entry_of_running hlisted), h.whole,
    h.image⟩

/-- What is found at the source of a pending image is the copy that it should be made of. -/
theorem Settled.read (h : Settled b p cloud running stage) (hasked : stage.asked = some a)
    (hpending : cloud.isPending a.image = true) {found : List S3ReleaseFile}
    (hread : cloud.read a.source = some found) : found = a.content := by
  have hown := h.own
  have hentry := h.entry
  have hwhole := h.whole
  cases stage with
  | idle => exact nomatch hasked
  | staged object content => exact nomatch hasked
  | listed object content version => exact nomatch hasked
  | imported object content source image =>
    obtain rfl := Option.some.inj hasked
    have hlookup := hown object (if_pos hpending)
    rcases hwhole.2 with rfl | ⟨version, rfl⟩
    · exact Option.some.inj (hread.symm.trans hlookup)
    · have hplan := hentry version object (if_pos hpending)
      rw [Cloud.read, hplan, Option.bind_some, hlookup] at hread
      exact (Option.some.inj hread).symm
  | removed object content image =>
    obtain rfl := Option.some.inj hasked
    rw [Cloud.read, hown object (if_pos hpending)] at hread
    exact nomatch hread

/-- What is asked for is a copy of the artifact. -/
theorem Settled.isCopy (h : Settled b p cloud running stage) (hasked : stage.asked = some a) :
    IsCopy b p a.object a.content := by
  have hwhole := h.whole
  cases stage with
  | idle => exact nomatch hasked
  | staged object content => exact nomatch hasked
  | listed object content version => exact nomatch hasked
  | imported object content source image =>
    obtain rfl := Option.some.inj hasked
    exact hwhole.1
  | removed object content image =>
    obtain rfl := Option.some.inj hasked
    exact hwhole

/-- What the service has worked on is not pending. -/
theorem isPending_of_work {turn k : ℕ} (h : (Cloud.work turn cloud).2.isPending k = true) :
    cloud.isPending k = true := by
  unfold Cloud.isPending Cloud.work at h
  unfold Cloud.isPending
  dsimp only at h
  rw [List.getElem?_modify] at h
  cases himage : cloud.images[k]? with
  | none =>
    rw [himage] at h
    exact h
  | some image =>
    rw [himage] at h
    by_cases hturn : turn = k
    · rw [hturn] at h
      simp only [if_true, Option.map_eq_map, Option.map_some, Option.any_some] at h ⊢
      unfold Cloud.advance at h
      split at h
      · next hpending => exact decide_eq_true hpending
      · exact h
    · simpa [hturn] using h

/-- The service works on an image. -/
theorem Settled.work (h : Settled b p cloud running stage) (turn : ℕ) :
    Settled b p (Cloud.work turn cloud).2 running stage := by
  refine ⟨fun object hobject => h.own object ?_, fun version object hlisted =>
    h.entry version object ?_, h.whole, fun a hasked => ?_⟩
  · exact Stage.needed_mono (fun _ => isPending_of_work) hobject
  · exact Stage.entry_mono (fun _ => isPending_of_work) hlisted
  · obtain ⟨image, himage, hsource, hmade⟩ := h.image a hasked
    by_cases hturn : turn = a.image
    · subst hturn
      refine ⟨cloud.advance image, ?_, ?_, fun result hresult => ?_⟩
      · simp [Cloud.work, himage]
      · rw [← hsource]
        unfold Cloud.advance
        split
        · split <;> rfl
        · rfl
      · unfold Cloud.advance at hresult
        split at hresult
        · next hpending =>
          have hstill : cloud.isPending a.image = true := by
            rw [Cloud.isPending, himage]
            exact decide_eq_true hpending
          split at hresult
          · next found hread =>
            rw [hsource] at hread
            obtain rfl := ImageState.made.inj hresult
            exact h.read hasked hstill hread
          · exact nomatch hresult
        · exact hmade result hresult
    · refine ⟨image, ?_, hsource, hmade⟩
      simp [Cloud.work, himage, hturn]

end Settled

/-! ## What a turn keeps -/

section Turn

variable {b : CloudBehaviour} {p : Publication} {cloud cloud' : Cloud} {stage stage' : Stage}
  {c : StagingCall}

/-- Images are only added. -/
theorem Turn.images_prefix (h : Turn b p cloud stage c cloud' stage') :
    cloud.images <+: cloud'.images := by
  cases h with
  | importsObject hcopy => exact List.prefix_append _ _
  | importsPlan => exact List.prefix_append _ _
  | _ => exact List.prefix_refl _

/-- An image that has just been asked for. -/
theorem settled_imported {object : StagingObject} {content : List S3ReleaseFile}
    {source : ImageSource} {running : Bool} {calls : ℕ} (store : StagingStore) (imageName : String)
    (hobject : cloud.objects.lookup object = some content)
    (hplan : ∀ version, source = .plan version → cloud.plan.lookup version = some object)
    (hwhole : (Stage.imported object content source cloud.images.length).Whole b p) :
    Settled b p { cloud with
        images := cloud.images ++ [⟨store, imageName, source, .pending⟩]
        calls := calls } running
      (.imported object content source cloud.images.length) := by
  refine ⟨fun object' hneeded => ?_, fun version object' hlisted => ?_, hwhole,
    fun a hasked => ?_⟩
  · obtain rfl : object = object' := by
      unfold Stage.needed at hneeded
      dsimp only at hneeded
      split at hneeded
      · exact Option.some.inj hneeded
      · exact nomatch hneeded
    exact hobject
  · cases source with
    | object source => exact nomatch hlisted
    | plan version' =>
      unfold Stage.entry at hlisted
      dsimp only at hlisted
      split at hlisted
      · obtain ⟨rfl, rfl⟩ := Prod.mk.inj (Option.some.inj hlisted)
        exact hplan version' rfl
      · exact nomatch hlisted
  · obtain rfl := Option.some.inj hasked
    exact ⟨⟨store, imageName, source, .pending⟩, List.getElem?_concat_length, rfl,
      fun _ hmade => nomatch hmade⟩

/-- A publication keeps what it relies on. -/
theorem Settled.turn (h : Settled b p cloud true stage)
    (ht : Turn b p cloud stage c cloud' stage') : Settled b p cloud' true stage' := by
  cases ht with
  | quiet => exact ⟨h.own, h.entry, h.whole, h.image⟩
  | begins hc =>
    refine ⟨fun object hobject => ?_, fun _ _ hlisted => (nomatch hlisted), trivial,
      fun _ hasked => (nomatch hasked)⟩
    obtain rfl := Option.some.inj hobject
    exact AList.lookup_insert _
  | finds =>
    exact ⟨fun _ hneeded => (nomatch hneeded), fun _ _ hlisted => (nomatch hlisted), trivial,
      fun _ hasked => (nomatch hasked)⟩
  | copies hheld =>
    refine ⟨fun object hobject => ?_, fun _ _ hlisted => (nomatch hlisted), trivial,
      fun _ hasked => (nomatch hasked)⟩
    obtain rfl := Option.some.inj hobject
    obtain rfl := Option.some.inj (hheld.symm.trans (h.own _ rfl))
    exact AList.lookup_insert _
  | lists hcopy =>
    refine ⟨fun object hobject => ?_, fun version object hlisted => ?_, hcopy,
      fun _ hasked => (nomatch hasked)⟩
    · obtain rfl := Option.some.inj hobject
      exact h.own _ rfl
    · obtain ⟨rfl, rfl⟩ := Prod.mk.inj (Option.some.inj hlisted)
      exact AList.lookup_insert _
  | importsObject hcopy =>
    exact settled_imported _ _ (h.own _ rfl) (fun _ hplan => nomatch hplan) ⟨hcopy, Or.inl rfl⟩
  | importsPlan =>
    refine settled_imported _ _ (h.own _ rfl) (fun version hplan => ?_)
      ⟨h.whole, Or.inr ⟨_, rfl⟩⟩
    obtain rfl := ImageSource.plan.inj hplan
    exact h.entry _ _ rfl
  | removes =>
    refine ⟨fun object hobject => ?_, fun _ _ hlisted => (nomatch hlisted), h.whole.1,
      fun a hasked => h.image a hasked⟩
    unfold Stage.needed at hobject
    dsimp only at hobject
    split at hobject
    · obtain rfl := Option.some.inj hobject
      exact AList.lookup_erase _ _
    · exact nomatch hobject

/-- A publication comes to an object when it puts it in place. -/
theorem Turn.held (ht : Turn b p cloud stage c cloud' stage') {running : Bool}
    {object : StagingObject} (hheld : stage'.held running cloud'.isPending = some object) :
    stage.held true cloud.isPending = some object ∨ c.begins = some object := by
  cases ht with
  | quiet => exact Or.inl (Stage.held_of_running hheld)
  | begins hc =>
    obtain ⟨-, rfl⟩ : running = true ∧ _ := by simpa [Stage.held, Stage.needed] using hheld
    exact Or.inr hc
  | finds => exact nomatch hheld
  | copies hlookup => exact Or.inl (Stage.held_of_running hheld)
  | lists hcopy => exact Or.inl (Stage.held_of_running hheld)
  | importsObject hcopy =>
    obtain ⟨-, rfl⟩ : _ ∧ _ := by simpa [Stage.held] using hheld
    exact Or.inl rfl
  | importsPlan =>
    obtain ⟨-, rfl⟩ : _ ∧ _ := by simpa [Stage.held] using hheld
    exact Or.inl rfl
  | removes =>
    obtain ⟨-, rfl⟩ : _ ∧ _ := by simpa [Stage.held, Stage.needed] using hheld
    exact Or.inl Stage.held_imported

/-- A turn leaves the objects alone that others are at. -/
theorem Turn.lookup_objects (ht : Turn b p cloud stage c cloud' stage') {object : StagingObject}
    (hbegins : c.begins ≠ some object) (hheld : stage.held true cloud.isPending ≠ some object) :
    cloud'.objects.lookup object = cloud.objects.lookup object := by
  cases ht with
  | quiet => rfl
  | begins hc => exact AList.lookup_insert_ne fun heq => hbegins (heq ▸ hc)
  | finds => rfl
  | copies hlookup => exact AList.lookup_insert_ne fun heq => hheld (congrArg some heq.symm)
  | lists hcopy => rfl
  | importsObject hcopy => rfl
  | importsPlan => rfl
  | removes =>
    refine AList.lookup_erase_ne fun heq => hheld ?_
    rw [heq]
    exact Stage.held_imported

/-- The plan is that of the call that writes it. -/
theorem Turn.plan_eq (ht : Turn b p cloud stage c cloud' stage') :
    cloud'.plan = cloud.plan ∨ c.offers = some cloud'.plan := by
  cases ht with
  | lists hcopy => exact Or.inr rfl
  | _ => exact Or.inl rfl

end Turn

/-! ## Several publications at a time -/

/-- A publication of `promote`, or of a promotion next to it, or a turn of the service. -/
inductive Party (ι : Type)
  | publication (i : ι)
  | service (turn : ℕ)
  deriving DecidableEq

section System

variable {ι : Type} [DecidableEq ι]

def parties (b : CloudBehaviour) (config : Config) (publications : ι → Publication) :
    Party ι → Process staging (Except PublishFailure Unit)
  | .publication i => (Publisher.publishImage b config (publications i)).run
  | .service turn => .call (.work (b.works turn)) fun _ => .done (.ok ())

def publishAll (b : CloudBehaviour) (config : Config) (publications : ι → Publication)
    (cloud : Cloud) (schedule : List (Party ι)) :
    System staging Cloud (Party ι) (Except PublishFailure Unit) :=
  System.run (cloudService b.outage) (System.start cloud (parties b config publications)) schedule

variable (b : CloudBehaviour) (publications : ι → Publication)
  (s : System staging Cloud (Party ι) (Except PublishFailure Unit))

def stageOf (i : ι) : Stage :=
  System.memory (stagingOrder b (publications i)) .idle (.publication i) s.history

def isRunning (i : ι) : Bool := !(s.processes (.publication i)).finished

def neededObject (i : ι) : Option StagingObject :=
  (stageOf b publications s i).needed (isRunning s i) s.store.isPending

def heldObject (i : ι) : Option StagingObject :=
  (stageOf b publications s i).held (isRunning s i) s.store.isPending

def neededEntry (i : ι) : Option (String × StagingObject) :=
  (stageOf b publications s i).entry (isRunning s i) s.store.isPending

/-- The image that a publication has asked for is made of a copy of the artifact of its own
release, and as long as it is not made, nothing else can be found at its source; and an object that
is about to be deleted is needed by no other publication. -/
structure Unmixed : Prop where
  made : ∀ i a image result, (stageOf b publications s i).asked = some a →
    s.store.images[a.image]? = some image → image.state = .made result →
    IsCopy b (publications i) a.object result
  found : ∀ i a image result, (stageOf b publications s i).asked = some a →
    s.store.images[a.image]? = some image → image.state = .pending →
    s.store.read image.source = some result → IsCopy b (publications i) a.object result
  kept : ∀ i object, (s.processes (.publication i)).nextCall = some (.delete object) →
    ∀ j ≠ i, neededObject b publications s j ≠ some object

/-- The publication puts no object in place that another one is at, and leaves the entries of the
plan that others need. -/
structure StepsApart (i : ι) : Prop where
  stages : ∀ object, (s.processes (.publication i)).nextCall.bind StagingCall.begins = some object →
    ∀ j ≠ i, heldObject b publications s j ≠ some object
  lists : ∀ plan, (s.processes (.publication i)).nextCall.bind StagingCall.offers = some plan →
    ∀ j ≠ i, ∀ version object, neededEntry b publications s j = some (version, object) →
      plan.lookup version = some object

/-- What the publications keep that stay apart from each other. -/
structure StagedWell : Prop where
  settled : ∀ i, Settled b (publications i) s.store (isRunning s i) (stageOf b publications s i)
  apart : ∀ i j object, heldObject b publications s i = some object →
    heldObject b publications s j = some object → i = j

/-- The order of a publication, and that of the service. -/
def partyOrder : Party ι → Discipline staging Stage
  | .publication i => stagingOrder b (publications i)
  | .service _ =>
    { Allowed := fun _ c => ∃ image, c = .work image
      update := fun stage _ _ => stage }

/-- What is left of the publications keeps to the order of their steps. -/
def InOrder : Prop :=
  System.AllFollow (partyOrder b publications) .idle (fun _ _ => True) s

theorem stageOf_step_of_ne {j : ι} {x : Party ι} (hx : .publication j ≠ x) :
    stageOf b publications (System.step (cloudService b.outage) s x) j =
        stageOf b publications s j ∧
      isRunning (System.step (cloudService b.outage) s x) j = isRunning s j := by
  unfold stageOf isRunning
  rw [System.step_processes_of_ne hx, System.memory_step_of_ne _ _ hx]
  exact ⟨rfl, rfl⟩

variable {b publications s} {i j : ι} {object : StagingObject}

/-- A state in which everything is staged well mixes nothing up. -/
theorem StagedWell.unmixed (h : StagedWell b publications s) (hfollow : InOrder b publications s) :
    Unmixed b publications s where
  made i a image result hasked himage hmade := by
    obtain ⟨image', himage', -, hresult⟩ := (h.settled i).image a hasked
    obtain rfl := Option.some.inj (himage.symm.trans himage')
    rw [hresult result hmade]
    exact (h.settled i).isCopy hasked
  found i a image result hasked himage hpending hread := by
    obtain ⟨image', himage', hsource, -⟩ := (h.settled i).image a hasked
    obtain rfl := Option.some.inj (himage.symm.trans himage')
    have hstill : s.store.isPending a.image = true := by
      rw [Cloud.isPending, himage]
      exact decide_eq_true hpending
    rw [hsource] at hread
    rw [(h.settled i).read hasked hstill hread]
    exact (h.settled i).isCopy hasked
  kept i object hcall j hj hneeds := by
    have hallowed := (hfollow (.publication i)).allowed hcall
    have hrunning : isRunning s i = true := by
      unfold isRunning
      rw [Bool.not_eq_true']
      exact Bool.eq_false_of_not_eq_true (not_finished_of_nextCall hcall)
    refine hj (h.apart j i object (Stage.held_of_needed hneeds) ?_)
    unfold heldObject
    rw [hrunning]
    change (stagingOrder b (publications i)).Allowed (stageOf b publications s i) _ at hallowed
    cases hstage : stageOf b publications s i with
    | imported object' content source image =>
      rw [hstage] at hallowed
      rw [hallowed.1]
      exact Stage.held_imported
    | _ =>
      rw [hstage] at hallowed
      exact hallowed.elim

section Step

variable {c : StagingCall} {next : staging.Answer c → Process staging (Except PublishFailure Unit)}

omit [DecidableEq ι] in
theorem isRunning_of_call (hp : s.processes (.publication i) = .call c next) :
    isRunning s i = true := by
  rw [isRunning, hp]
  rfl

/-- The turn that a publication takes in a step. -/
theorem turn_of_step (hfollow : InOrder b publications s)
    (hp : s.processes (.publication i) = .call c next) :
    Turn b (publications i) s.store (stageOf b publications s i) c
      (System.step (cloudService b.outage) s (.publication i)).store
      (stageOf b publications (System.step (cloudService b.outage) s (.publication i)) i) := by
  have hallowed : (stagingOrder b (publications i)).Allowed (stageOf b publications s i) c :=
    (hfollow (.publication i)).allowed (by rw [hp, Process.nextCall])
  rw [System.store_step hp]
  unfold stageOf
  rw [System.memory_step _ _ hp]
  exact turn_of_allowed hallowed

/-- The object that a publication is at after a step of one of them. -/
theorem heldObject_step (h : StagedWell b publications s) (hfollow : InOrder b publications s)
    (hp : s.processes (.publication i) = .call c next)
    (hheld : heldObject b publications (System.step (cloudService b.outage) s (.publication i)) j =
      some object) :
    heldObject b publications s j = some object ∨ j = i ∧ c.begins = some object := by
  have hturn := turn_of_step hfollow hp
  by_cases hj : j = i
  · subst hj
    rcases hturn.held hheld with hold | hbegins
    · left
      rw [heldObject, isRunning_of_call hp]
      exact hold
    · exact Or.inr ⟨rfl, hbegins⟩
  · left
    obtain ⟨hstage, hrunning⟩ := stageOf_step_of_ne b publications s
      fun heq : Party.publication j = .publication i => hj (Party.publication.inj heq)
    rw [heldObject, hstage, hrunning, ((h.settled j).stage_eq hturn.images_prefix).2.1] at hheld
    exact hheld

end Step

/-- A step of a publication that stays apart keeps what is staged well. -/
theorem StagedWell.step (h : StagedWell b publications s) (hfollow : InOrder b publications s)
    (hgood : StepsApart b publications s i) :
    StagedWell b publications (System.step (cloudService b.outage) s (.publication i)) := by
  cases hp : s.processes (.publication i) with
  | done r => rwa [System.step_of_done hp]
  | call c next =>
    have hcall : (s.processes (.publication i)).nextCall = some c := by rw [hp, Process.nextCall]
    have hturn := turn_of_step hfollow hp
    have hbegins : ∀ j ≠ i, ∀ object, heldObject b publications s j = some object →
        c.begins ≠ some object :=
      fun j hj object hheld hbegins =>
        hgood.stages object (by rw [hcall, Option.bind_some, hbegins]) j hj hheld
    refine ⟨fun j => ?_, fun j k object hheld hheld' => ?_⟩
    · by_cases hj : j = i
      · subst hj
        have hsettled := h.settled j
        rw [isRunning_of_call hp] at hsettled
        exact (hsettled.turn hturn).stop
      · obtain ⟨hstage, hrunning⟩ := stageOf_step_of_ne b publications s
          fun heq : Party.publication j = .publication i => hj (Party.publication.inj heq)
        rw [hstage, hrunning]
        refine (h.settled j).frame (fun object hneeded => ?_) (fun version object hentry => ?_)
          hturn.images_prefix
        · -- nobody else is at the object
          have hheld := Stage.held_of_needed hneeded
          refine hturn.lookup_objects (hbegins j hj object hheld) fun hsame => ?_
          refine hj (h.apart j i object hheld ?_)
          rw [heldObject, isRunning_of_call hp]
          exact hsame
        · rcases hturn.plan_eq with hplan | hoffers
          · rw [hplan]
            exact (h.settled j).entry version object hentry
          · refine hgood.lists _ ?_ j hj version object hentry
            rw [hcall, Option.bind_some, hoffers]
    · rcases heldObject_step h hfollow hp hheld with hold | ⟨rfl, hnew⟩
      · rcases heldObject_step h hfollow hp hheld' with hold' | ⟨rfl, hnew'⟩
        · exact h.apart j k object hold hold'
        · exact Classical.byContradiction fun hne => hbegins j hne object hold hnew'
      · rcases heldObject_step h hfollow hp hheld' with hold' | ⟨rfl, -⟩
        · exact Classical.byContradiction fun hne => hbegins k (Ne.symm hne) object hold' hnew
        · rfl

/-- A turn of the service keeps what is staged well. -/
theorem StagedWell.work (h : StagedWell b publications s) (hfollow : InOrder b publications s)
    (turn : ℕ) :
    StagedWell b publications (System.step (cloudService b.outage) s (.service turn)) := by
  cases hp : s.processes (.service turn) with
  | done r => rwa [System.step_of_done hp]
  | call c next =>
    obtain ⟨image, rfl⟩ : ∃ image, c = .work image :=
      (hfollow (.service turn)).allowed (by rw [hp, Process.nextCall])
    have hkept : ∀ i, Settled b (publications i)
          ((cloudService b.outage).perform s.store (.work image)).2 (isRunning s i)
          (stageOf b publications s i) ∧
        ∀ k, ((cloudService b.outage).perform s.store (.work image)).2.isPending k = true →
          s.store.isPending k = true := by
      intro i
      obtain ⟨hown, hentry, hwhole, himage⟩ := h.settled i
      have hcounted : Settled b (publications i) { s.store with calls := s.store.calls + 1 }
          (isRunning s i) (stageOf b publications s i) := ⟨hown, hentry, hwhole, himage⟩
      show Settled b _ (s.store.attempt b.outage (Cloud.work image)).2 _ _ ∧ ∀ k,
        (s.store.attempt b.outage (Cloud.work image)).2.isPending k = true → _
      unfold Cloud.attempt
      split
      · exact ⟨hcounted, fun k hk => hk⟩
      · exact ⟨hcounted.work image, fun k hk => isPending_of_work hk⟩
    have hsame := fun i => stageOf_step_of_ne b publications s
      (nofun : Party.publication i ≠ .service turn)
    have hheld : ∀ i object,
        heldObject b publications (System.step (cloudService b.outage) s (.service turn)) i =
          some object → heldObject b publications s i = some object := by
      intro i object hobject
      rw [heldObject, (hsame i).1, (hsame i).2, System.store_step hp] at hobject
      exact Stage.held_mono (hkept i).2 hobject
    refine ⟨fun i => ?_, fun i j object hi hj => h.apart i j object (hheld i object hi)
      (hheld j object hj)⟩
    rw [(hsame i).1, (hsame i).2, System.store_step hp]
    exact (hkept i).1

/-- As long as no publication stages an object that another one is at, or drops an entry of the
plan that another one needs, each image is made from the artifact of its own release, and no object
is deleted that another publication needs. -/
theorem publications_unmixed {config : Config} {cloud : Cloud} {schedule : List (Party ι)}
    (hapart : ∀ taken i, taken ++ [.publication i] <+: schedule →
      StepsApart b publications (publishAll b config publications cloud taken) i)
    {taken : List (Party ι)} (htaken : taken <+: schedule) :
    Unmixed b publications (publishAll b config publications cloud taken) := by
  have hrun := System.run_induction_while (S := cloudService b.outage)
    (s := System.start cloud (parties b config publications))
    (G := fun s x => ∀ i, x = .publication i → StepsApart b publications s i)
    (P := fun s => StagedWell b publications s ∧ InOrder b publications s) ⟨?_, fun x => ?_⟩
    (fun s x hgood hs => ⟨?_, hs.2.step x⟩)
    fun earlier x hearlier i hx => hapart earlier i (hx ▸ hearlier.trans htaken)
  · exact hrun.1.unmixed hrun.2
  · exact ⟨fun i => ⟨fun _ hneeded => (nomatch hneeded), fun _ _ hentry => (nomatch hentry),
      trivial, fun _ hasked => (nomatch hasked)⟩, fun _ _ _ hheld => (nomatch hheld)⟩
  · cases x with
    | publication i =>
      exact follows_mono (Publisher.publishImage_safe b config (publications i)) (fun _ _ h => h)
        (fun _ _ _ => rfl) fun _ _ _ => trivial
    | service turn => exact ⟨⟨b.works turn, rfl⟩, fun _ => trivial⟩
  · cases x with
    | publication i => exact hs.1.step hs.2 (hgood i rfl)
    | service turn => exact hs.1.work hs.2 turn

instance [Fintype ι] (i : ι) : Decidable (StepsApart b publications s i) :=
  decidable_of_iff
    ((∀ object ∈ (s.processes (.publication i)).nextCall.bind StagingCall.begins, ∀ j ≠ i,
        heldObject b publications s j ≠ some object) ∧
      ∀ plan ∈ (s.processes (.publication i)).nextCall.bind StagingCall.offers, ∀ j ≠ i,
        ∀ e ∈ neededEntry b publications s j, plan.lookup e.1 = some e.2)
    ⟨fun h => ⟨h.1, fun plan hplan j hj version object => h.2 plan hplan j hj (version, object)⟩,
      fun h => ⟨h.stages, fun plan hplan j hj e => h.lists plan hplan j hj e.1 e.2⟩⟩

end System

/-! ## Two releases of one version -/

def gcpArtifact (s3Key : String) : S3ReleaseFile :=
  ⟨"rootfs-gcpimage.tar.gz", "rootfs-gcpimage.tar.gz", s3Key, "gardenlinux"⟩

/-- A release of `gcp` with some modifiers, and its artifact. -/
def gcpRelease (modifiers : List String) (s3Key : String) : Publication :=
  ⟨⟨⟨⟨"5b1e9f03", "576.0", 576, .amd64, "gcp", modifiers⟩, "2022-01-24T12:00:00",
      [gcpArtifact s3Key], none, none⟩, "meta/singles/gcp", "gardenlinux", none, none⟩, .sorted⟩

def plainKey : String := "objects/7037807198c22a7d2b0807371d763779a84fdfcf"

def devKey : String := "objects/e16d2a4f0b1c54aa7cd0bd6f10a4c1d5f3a17c02"

/-- The plain release, and the one for developers. -/
def gcpReleases : Bool → Publication
  | false => gcpRelease [] plainKey
  | true => gcpRelease ["dev"] devKey

def gcpConfig : Config :=
  ⟨asciiUpper, FeatureSet.ofEntries [("gcp", ⟨"platform", [], []⟩), ("dev", ⟨"flag", [], []⟩)],
    "publisher", "offer", "plan", fun version => .ok version⟩

/-- The service works on the images in the order in which they are asked for. -/
def inTurn : CloudBehaviour := ⟨fun _ => false, fun _ => 0, 1, id⟩

def publishGcpReleases (schedule : List (Party Bool)) :
    System staging Cloud (Party Bool) (Except PublishFailure Unit) :=
  publishAll inTurn gcpConfig gcpReleases ⟨∅, ∅, [], 0⟩ schedule

/-- One publication after the other, and each image is made before it is waited for. -/
def oneAfterTheOther : List (Party Bool) :=
  [.publication false, .publication false, .service 0, .publication false, .publication false,
    .publication true, .publication true, .service 1, .publication true, .publication true]

theorem oneAfterTheOther_apart (taken : List (Party Bool)) (i : Bool)
    (htaken : taken ++ [.publication i] <+: oneAfterTheOther) :
    StepsApart inTurn gcpReleases (publishGcpReleases taken) i := by
  have hall : ∀ earlier ∈ oneAfterTheOther.inits, ∀ i,
      earlier ++ [.publication i] ∈ oneAfterTheOther.inits →
      StepsApart inTurn gcpReleases (publishGcpReleases earlier) i := by
    decide +kernel
  exact hall taken ((List.mem_inits ..).2 ((List.prefix_append _ _).trans htaken)) i
    ((List.mem_inits ..).2 htaken)

/-- Both releases are published. -/
theorem publications_unmixed_oneAfterTheOther :
    Unmixed inTurn gcpReleases (publishGcpReleases oneAfterTheOther) :=
  publications_unmixed oneAfterTheOther_apart (List.prefix_refl _)

/-- Both releases are staged before the image of the first is made, from the artifact of the
second. -/
theorem publications_mixed :
    ¬ ∀ (b : CloudBehaviour) (config : Config) (publications : Bool → Publication) (cloud : Cloud)
        (schedule : List (Party Bool)),
      (publications false).release.platform = (publications true).release.platform →
      (publications false).release.version = (publications true).release.version →
      (publications false).release.releaseIdentifier ≠
        (publications true).release.releaseIdentifier →
      Unmixed b publications (publishAll b config publications cloud schedule) := by
  intro h
  have hunmixed := h inTurn gcpConfig gcpReleases ⟨∅, ∅, [], 0⟩
    [.publication false, .publication true, .publication false, .service 0] rfl rfl (by decide)
  have hasked : (stageOf inTurn gcpReleases (publishGcpReleases
      [.publication false, .publication true, .publication false, .service 0]) false).asked =
      some ⟨⟨.gcs, "gardenlinux-576.0.tar.gz"⟩, [gcpArtifact plainKey],
        .object ⟨.gcs, "gardenlinux-576.0.tar.gz"⟩, 0⟩ := by
    decide +kernel
  have himage : (publishGcpReleases [.publication false, .publication true, .publication false,
      .service 0]).store.images[0]? =
      some ⟨.gcs, "gardenlinux-gcp-576-0-5b1e9f", .object ⟨.gcs, "gardenlinux-576.0.tar.gz"⟩,
        .made [gcpArtifact devKey]⟩ := by
    decide +kernel
  obtain ⟨artifact, hartifact, hcopy⟩ := hunmixed.made false _ _ _ hasked himage rfl
  have hplain : (gcpReleases false).release.artifact = .ok (gcpArtifact plainKey) := rfl
  obtain rfl := Except.ok.inj (hplain.symm.trans hartifact)
  exact absurd hcopy (by decide)

end Glci
