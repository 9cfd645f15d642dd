import Mathlib

/-!
# Unregistering the images of a release

`unregister_images_by_name` of `ci/glci/aws.py`: a loop over what `image_ids_by_name` yields
submits a closure for each image to an executor.  The closures do not carry the region and
the image that they are made for: they read the variables of the loop when they run.

What is proved here:

* `Unregistering.Inv.step` — what every step of the loop and of a thread keeps, as long as
  the loop does not reassign a variable that a closure has yet to read;
* `unregisterImagesByName_calls` — in every such run the calls to `deregister_image` are the
  yielded images, each in its own region and each once;
* `unregisterImagesByName_mixes` — a closure that runs late deregisters the image of another
  iteration, and its own stays.
-/

namespace Glci

/-! ## The loop and its closures -/

/-- The next image that `image_ids_by_name` yields, from the answers of `describe_images` for
the regions that are left. -/
def nextImage : List (String × List String) →
    Except String (Option ((String × String) × List (String × List String)))
  | [] => .ok none
  | (_, []) :: remaining => nextImage remaining
  | (regionName, [imageId]) :: remaining => .ok (some ((regionName, imageId), remaining))
  | (_, _ :: _ :: _) :: _ => .error "found more than one image (this is a bug)"

/-- What `image_ids_by_name` yields before it ends or raises. -/
def imageIdsByName : List (String × List String) → List (String × String)
  | [] => []
  | (_, []) :: remaining => imageIdsByName remaining
  | (regionName, [imageId]) :: remaining => (regionName, imageId) :: imageIdsByName remaining
  | (_, _ :: _ :: _) :: _ => []

/-- Where `unregister_images_by_name` is. -/
inductive LoopPoint
  | next (remaining : List (String × List String))
  | assignRegionName (regionName imageId : String) (remaining : List (String × List String))
  | assignImageId (imageId : String) (remaining : List (String × List String))
  | submit (remaining : List (String × List String))
  | wait
  | returned
  | raised (text : String)
  deriving DecidableEq, Repr

/-- A closure before it reads `region_name`, with its client and before it reads `image_id`,
and with its call to `deregister_image`; a variable without a value is an error. -/
inductive UnregisterImage
  | submitted
  | connected (regionName : String)
  | done (call : Option (String × String))
  deriving DecidableEq, Repr

def UnregisterImage.call : UnregisterImage → Option (String × String)
  | .done call => call
  | _ => none

def UnregisterImage.isDone : UnregisterImage → Bool
  | .done _ => true
  | _ => false

/-- The loop, its variables, the closures in the order of their submission, and the calls to
`deregister_image` so far, by the region of the client and the image. -/
structure Unregistering where
  point : LoopPoint
  regionName : Option String
  imageId : Option String
  results : List UnregisterImage
  deregistered : List (String × String)
  deriving DecidableEq, Repr

namespace Unregistering

def start (answers : List (String × List String)) : Unregistering :=
  ⟨.next answers, none, none, [], []⟩

def stepLoop (s : Unregistering) : Unregistering :=
  match s.point with
  | .next remaining =>
    match nextImage remaining with
    | .ok none => { s with point := .wait }
    | .ok (some ((regionName, imageId), remaining)) =>
      { s with point := .assignRegionName regionName imageId remaining }
    | .error text => { s with point := .raised text }
  | .assignRegionName regionName imageId remaining =>
    { s with point := .assignImageId imageId remaining, regionName := some regionName }
  | .assignImageId imageId remaining =>
    { s with point := .submit remaining, imageId := some imageId }
  | .submit remaining =>
    { s with point := .next remaining, results := s.results ++ [.submitted] }
  | .wait => if s.results.all (·.isDone) then { s with point := .returned } else s
  | .returned => s
  | .raised _ => s

/-- The next step of the thread of a closure. -/
def stepThread (s : Unregistering) (k : ℕ) : Unregistering :=
  match s.results[k]? with
  | some .submitted =>
    match s.regionName with
    | some regionName => { s with results := s.results.set k (.connected regionName) }
    | none => { s with results := s.results.set k (.done none) }
  | some (.connected regionName) =>
    match s.imageId with
    | some imageId =>
      { s with
        results := s.results.set k (.done (some (regionName, imageId)))
        deregistered := s.deregistered ++ [(regionName, imageId)] }
    | none => { s with results := s.results.set k (.done none) }
  | _ => s

/-- A step of the loop (`none`) or of the thread of a closure. -/
def step (s : Unregistering) : Option ℕ → Unregistering
  | none => s.stepLoop
  | some k => s.stepThread k

def run (s : Unregistering) (schedule : List (Option ℕ)) : Unregistering :=
  schedule.foldl step s

/-- The loop does not reassign a variable that a closure has yet to read. -/
def Timely (s : Unregistering) : Option ℕ → Prop
  | none =>
    match s.point with
    | .assignRegionName _ _ _ => .submitted ∉ s.results
    | .assignImageId _ _ => ∀ closure ∈ s.results, closure.isDone
    | _ => True
  | some _ => True

/-- Every step of a run is timely. -/
def AllTimely (s : Unregistering) : List (Option ℕ) → Prop
  | [] => True
  | client :: schedule => s.Timely client ∧ (s.step client).AllTimely schedule

/-! ## The invariant -/

/-- What a closure has done or will do, for the image that it was made for. -/
def Own (s : Unregistering) (image : String × String) : UnregisterImage → Prop
  | .submitted => s.regionName = some image.1 ∧ s.imageId = some image.2
  | .connected regionName => regionName = image.1 ∧ s.imageId = some image.2
  | .done call => call = some image

/-- What is still to be submitted, in view of the variables. -/
def Left (s : Unregistering) (left : List (String × String)) : Prop :=
  match s.point with
  | .next remaining => left = imageIdsByName remaining
  | .assignRegionName regionName imageId remaining =>
    left = (regionName, imageId) :: imageIdsByName remaining
  | .assignImageId imageId remaining => ∃ regionName, s.regionName = some regionName ∧
    left = (regionName, imageId) :: imageIdsByName remaining
  | .submit remaining => ∃ image, s.regionName = some image.1 ∧ s.imageId = some image.2 ∧
    left = image :: imageIdsByName remaining
  | .wait | .returned => left = []
  | .raised _ => True

structure Inv (yielded : List (String × String)) (s : Unregistering) : Prop where
  own : ∃ past left, yielded = past ++ left ∧ List.Forall₂ s.Own past s.results ∧ s.Left left
  calls : s.deregistered.Perm (s.results.filterMap (·.call))
  waited : s.point = .returned → ∀ closure ∈ s.results, closure.isDone

theorem nextImage_spec (answers : List (String × List String)) :
    match nextImage answers with
    | .ok none => imageIdsByName answers = []
    | .ok (some (image, remaining)) => imageIdsByName answers = image :: imageIdsByName remaining
    | .error _ => True := by
  fun_induction nextImage answers with
  | case1 => rfl
  | case2 _ remaining ih => exact ih
  | case3 regionName imageId remaining => rfl
  | case4 => trivial

/-- A closure of a list is replaced. -/
theorem forall₂_set {α β : Type} {R : α → β → Prop} {l : List α} {l' : List β}
    (h : List.Forall₂ R l l') {k : ℕ} {b b' : β} (hb : l'[k]? = some b)
    (hR : ∀ a, R a b → R a b') : List.Forall₂ R l (l'.set k b') := by
  induction h generalizing k with
  | nil => simp at hb
  | cons hab htail ih =>
    cases k with
    | zero =>
      obtain rfl := Option.some.inj (List.getElem?_cons_zero.symm.trans hb)
      exact .cons (hR _ hab) htail
    | succ k => exact .cons hab (ih (by simpa using hb))

theorem filterMap_set_perm {α β : Type} {f : α → Option β} {l : List α} {k : ℕ} {a a' : α} {b : β}
    (ha : l[k]? = some a) (hnone : f a = none) (hsome : f a' = some b) :
    ((l.filterMap f) ++ [b]).Perm ((l.set k a').filterMap f) := by
  induction l generalizing k with
  | nil => simp at ha
  | cons x l ih =>
    cases k with
    | zero =>
      obtain rfl := Option.some.inj (List.getElem?_cons_zero.symm.trans ha)
      simp only [List.set_cons_zero, List.filterMap_cons, hnone, hsome]
      exact List.perm_append_singleton b _
    | succ k =>
      have htail := ih (k := k) (by simpa using ha)
      cases hx : f x with
      | none => simpa only [List.set_cons_succ, List.filterMap_cons, hx] using htail
      | some y =>
        simpa only [List.set_cons_succ, List.filterMap_cons, hx, List.cons_append] using htail.cons y

theorem filterMap_set_of_none {α β : Type} {f : α → Option β} {l : List α} {k : ℕ} {a a' : α}
    (ha : l[k]? = some a) (hnone : f a = none) (hnone' : f a' = none) :
    (l.set k a').filterMap f = l.filterMap f := by
  induction l generalizing k with
  | nil => simp at ha
  | cons x l ih =>
    cases k with
    | zero =>
      obtain rfl := Option.some.inj (List.getElem?_cons_zero.symm.trans ha)
      simp only [List.set_cons_zero, List.filterMap_cons, hnone, hnone']
    | succ k => simp only [List.set_cons_succ, List.filterMap_cons, ih (by simpa using ha)]

variable {yielded : List (String × String)} {s : Unregistering}

theorem Inv.start (answers : List (String × List String)) :
    Inv (imageIdsByName answers) (start answers) where
  own := ⟨[], _, rfl, .nil, rfl⟩
  calls := .refl _
  waited h := nomatch h

/-- A thread goes on with the variables of its own iteration. -/
theorem Inv.set (h : Inv yielded s) {k : ℕ} {closure closure' : UnregisterImage}
    {calls : List (String × String)} (hk : s.results[k]? = some closure)
    (hdone : closure.isDone = false) (hown : ∀ image, s.Own image closure → s.Own image closure')
    (hcalls : calls.Perm ((s.results.set k closure').filterMap (·.call))) :
    Inv yielded { s with results := s.results.set k closure', deregistered := calls } := by
  obtain ⟨past, left, hyielded, hpast, hleft⟩ := h.own
  refine ⟨⟨past, left, hyielded, forall₂_set hpast hk hown, hleft⟩, hcalls, fun hreturned => ?_⟩
  have hwaited := h.waited hreturned closure (List.mem_of_getElem? hk)
  rw [hdone] at hwaited
  exact nomatch hwaited

theorem Inv.stepThread (h : Inv yielded s) (k : ℕ) : Inv yielded (s.stepThread k) := by
  unfold Unregistering.stepThread
  split
  · next hk =>
    split
    · next regionName hregion =>
      refine h.set hk rfl (fun image himage => ?_) ?_
      · obtain ⟨hname, himageId⟩ := himage
        exact ⟨Option.some.inj (hregion.symm.trans hname), himageId⟩
      · rw [filterMap_set_of_none hk rfl rfl]
        exact h.calls
    · next hregion =>
      refine h.set hk rfl (fun image himage => ?_) ?_
      · exact nomatch hregion.symm.trans himage.1
      · rw [filterMap_set_of_none hk rfl rfl]
        exact h.calls
  · next regionName hk =>
    split
    · next imageId himageId =>
      refine h.set hk rfl (fun image himage => ?_) ?_
      · obtain ⟨rfl, hname⟩ := himage
        obtain rfl := Option.some.inj (himageId.symm.trans hname)
        rfl
      · exact (h.calls.append_right _).trans (filterMap_set_perm hk rfl rfl)
    · next himageId =>
      refine h.set hk rfl (fun image himage => ?_) ?_
      · exact nomatch himageId.symm.trans himage.2
      · rw [filterMap_set_of_none hk rfl rfl]
        exact h.calls
  · exact h

/-- A variable is reassigned when no closure has yet to read it. -/
theorem Inv.reassign (h : Inv yielded s) {point : LoopPoint} {regionName imageId : Option String}
    (hread : ∀ image closure, closure ∈ s.results → s.Own image closure →
      Own { s with point, regionName, imageId } image closure)
    (hleft : ∀ left, s.Left left → Left { s with point, regionName, imageId } left)
    (hpoint : point ≠ .returned) : Inv yielded { s with point, regionName, imageId } := by
  obtain ⟨past, left, hyielded, hpast, hl⟩ := h.own
  refine ⟨⟨past, left, hyielded, ?_, hleft left hl⟩, h.calls, fun hreturned => absurd hreturned hpoint⟩
  exact List.forall₂_iff_zip.2 ⟨hpast.length_eq, fun hzip =>
    hread _ _ (List.of_mem_zip hzip).2 ((List.forall₂_iff_zip.1 hpast).2 hzip)⟩

theorem Inv.stepLoop (h : Inv yielded s) (htimely : s.Timely none) : Inv yielded s.stepLoop := by
  unfold Unregistering.stepLoop
  unfold Timely at htimely
  split
  · next remaining hpoint =>
    have hnext := nextImage_spec remaining
    split
    · next hnone =>
      rw [hnone] at hnext
      refine h.reassign (fun _ _ _ himage => himage) (fun left hleft => ?_) (by simp)
      simp only [Left, hpoint] at hleft
      exact hleft.trans hnext
    · next regionName imageId remaining' hsome =>
      rw [hsome] at hnext
      refine h.reassign (fun _ _ _ himage => himage) (fun left hleft => ?_) (by simp)
      simp only [Left, hpoint] at hleft
      exact hleft.trans hnext
    · exact h.reassign (fun _ _ _ himage => himage) (fun _ _ => trivial) (by simp)
  · next regionName imageId remaining hpoint =>
    rw [hpoint] at htimely
    refine h.reassign (fun image closure hmem himage => ?_) (fun left hleft => ?_) (by simp)
    · cases closure with
      | submitted => exact absurd hmem htimely
      | connected regionName => exact himage
      | done call => exact himage
    · simp only [Left, hpoint] at hleft
      exact ⟨regionName, rfl, hleft⟩
  · next imageId remaining hpoint =>
    rw [hpoint] at htimely
    refine h.reassign (fun image closure hmem himage => ?_) (fun left hleft => ?_) (by simp)
    · cases closure with
      | submitted => exact absurd (htimely _ hmem) (by simp [UnregisterImage.isDone])
      | connected regionName => exact absurd (htimely _ hmem) (by simp [UnregisterImage.isDone])
      | done call => exact himage
    · simp only [Left, hpoint] at hleft
      obtain ⟨regionName, hregion, hl⟩ := hleft
      exact ⟨(regionName, imageId), hregion, rfl, hl⟩
  · next remaining hpoint =>
    obtain ⟨past, left, hyielded, hpast, hleft⟩ := h.own
    simp only [Left, hpoint] at hleft
    obtain ⟨image, hregion, himageId, rfl⟩ := hleft
    refine ⟨⟨past ++ [image], _, by simp [hyielded], ?_, rfl⟩, ?_, fun hreturned => nomatch hreturned⟩
    · exact List.rel_append hpast (.cons ⟨hregion, himageId⟩ .nil)
    · simpa [List.filterMap_append, UnregisterImage.call] using h.calls
  · next hpoint =>
    split
    · next hall =>
      obtain ⟨past, left, hyielded, hpast, hleft⟩ := h.own
      simp only [Left, hpoint] at hleft
      exact ⟨⟨past, left, hyielded, hpast, hleft⟩, h.calls, fun _ => List.all_eq_true.1 hall⟩
    · exact h
  · exact h
  · exact h

/-- What every step keeps that does not take a variable from a closure. -/
theorem Inv.step (h : Inv yielded s) {client : Option ℕ} (htimely : s.Timely client) :
    Inv yielded (s.step client) := by
  cases client with
  | none => exact h.stepLoop htimely
  | some k => exact h.stepThread k

theorem Inv.run (h : Inv yielded s) {schedule : List (Option ℕ)} (htimely : s.AllTimely schedule) :
    Inv yielded (s.run schedule) := by
  induction schedule generalizing s with
  | nil => exact h
  | cons client schedule ih => exact ih (h.step htimely.1) htimely.2

/-- Closures that are done have made the calls of their own. -/
theorem filterMap_call_of_own {past : List (String × String)} {results : List UnregisterImage}
    (hpast : List.Forall₂ s.Own past results) (hdone : ∀ closure ∈ results, closure.isDone) :
    results.filterMap (·.call) = past := by
  induction hpast with
  | nil => rfl
  | @cons image closure _ closures hown _ ih =>
    have htail := ih fun closure hmem => hdone closure (List.mem_cons_of_mem _ hmem)
    cases closure with
    | submitted => exact absurd (hdone _ (List.mem_cons_self ..)) (by simp [UnregisterImage.isDone])
    | connected regionName =>
      exact absurd (hdone _ (List.mem_cons_self ..)) (by simp [UnregisterImage.isDone])
    | done call =>
      obtain rfl : call = some image := hown
      show image :: closures.filterMap (·.call) = _
      rw [htail]

/-- At its end every closure has made the call for its own image. -/
theorem Inv.returned (h : Inv yielded s) (hreturned : s.point = .returned) :
    s.deregistered.Perm yielded := by
  obtain ⟨past, left, rfl, hpast, hleft⟩ := h.own
  simp only [Left, hreturned] at hleft
  subst hleft
  have hcalls := h.calls
  rwa [filterMap_call_of_own hpast (h.waited hreturned), ← List.append_nil past] at hcalls

end Unregistering

/-- When `unregister_images_by_name` returns after a run in which no variable is reassigned
that a closure has yet to read, `deregister_image` has been called for the yielded images,
each in its own region and each once. -/
theorem unregisterImagesByName_calls (answers : List (String × List String))
    {schedule : List (Option ℕ)} (htimely : (Unregistering.start answers).AllTimely schedule)
    (hreturned : ((Unregistering.start answers).run schedule).point = .returned) :
    ((Unregistering.start answers).run schedule).deregistered.Perm (imageIdsByName answers) :=
  ((Unregistering.Inv.start answers).run htimely).returned hreturned

/-- An image in each of two regions. -/
def twoImages : List (String × List String) :=
  [("eu-central-1", ["ami-1"]), ("eu-west-1", []), ("us-east-1", ["ami-2"])]

/-- Each closure runs before the loop goes on. -/
theorem unregisterImagesByName_calls_inOrder :
    ((Unregistering.start twoImages).run
      [none, none, none, none, some 0, some 0, none, none, none, none, some 1, some 1, none,
        none]).deregistered.Perm (imageIdsByName twoImages) :=
  unregisterImagesByName_calls twoImages
    (by simp [Unregistering.AllTimely, Unregistering.Timely, Unregistering.start,
      Unregistering.step, Unregistering.stepLoop, Unregistering.stepThread, nextImage, twoImages,
      UnregisterImage.isDone])
    (by decide)

/-- The first closure runs when the loop has gone on to the second image: that one is
deregistered twice, and the first never. -/
theorem unregisterImagesByName_mixes :
    ¬ ∀ (answers : List (String × List String)) (schedule : List (Option ℕ)),
      ((Unregistering.start answers).run schedule).point = .returned →
      ((Unregistering.start answers).run schedule).deregistered.Perm (imageIdsByName answers) := by
  intro h
  have hperm := h twoImages
    [none, none, none, none, none, none, none, some 0, some 0, none, some 1, some 1, none, none]
    (by decide)
  exact absurd hperm (by decide)

end Glci
