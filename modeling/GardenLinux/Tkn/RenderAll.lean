import GardenLinux.Glci.Expands
import GardenLinux.Glci.OciTags
import GardenLinux.Tkn.PackagesRun

/-!
# Rendering everything

`ci/render_all.py`: the tasks, the pipeline of the packages and the pipeline of a flavour set.

What is proved here:

* `getModifierNames_of_flavours` — the names of the modifiers of a flavour that has been made are
  found again;
* `renderAll_ok_iff` — what has to be there: the files of all scripts, and a flavour set that has
  a flavour and whose flavours can be made.
-/

namespace Tkn

open GardenFeat (bind_ok_iff FeatureSet)
open Glci (GardenlinuxFlavour GardenlinuxFlavourSet CallOrders getModifierNames Expands InClosure
  normalisedModifiers_ok_iff_expands of_normalisedModifiers_ok featuresByName_ok_iff postInit_ok)

structure Rendered where
  tasks : List Task
  packages : Pipeline
  main : Pipeline

inductive RenderAllError
  | stepError (e : StepError)
  | notFound (flavourSetName : String)
  | renderError (e : RenderError)
  | modelError (e : Glci.ModelError)

/-- `flavour_set` of `ci/glci/util.py`. -/
def findFlavourSet (flavourSets : List GardenlinuxFlavourSet) (flavourSetName : String) :
    Except RenderAllError GardenlinuxFlavourSet :=
  match flavourSets.find? (·.name = flavourSetName) with
  | some flavourSet => .ok flavourSet
  | none => .error (.notFound flavourSetName)

/-- `render_task` and `render_pipelines`, one after the other. -/
def renderAll (orders : CallOrders) (order : Enumeration GardenlinuxFlavour)
    (platformOrder : Enumeration String) (paramOrder : Enumeration NamedParam)
    (config : Glci.Config) (flavourSets : List GardenlinuxFlavourSet) (flavourSetName : String)
    (checkout : Checkout) : Except RenderAllError Rendered := do
  let tasks ← (renderTask paramOrder checkout).mapError .stepError
  let flavourSet ← findFlavourSet flavourSets flavourSetName
  let packages ← (mkPipelinePackages paramOrder tasks).mapError .renderError
  let flavours ← (flavourSet.flavours orders config).mapError .modelError
  let main ← (mkPipeline orders order platformOrder paramOrder config flavours tasks
    .snapshot).mapError .renderError
  pure ⟨tasks, packages, main⟩

/-! ## The modifiers of a flavour -/

section Flavours

variable {orders : CallOrders} {config : Glci.Config} {flavour : GardenlinuxFlavour}

/-- The modifiers of a flavour are all that its features include. -/
theorem expands_of_flavour {product : Glci.Architecture × String × List String}
    (h : GardenlinuxFlavourSet.flavour orders config product = .ok flavour) :
    Expands config.allFeatures (flavour.platform :: flavour.modifiers) := by
  obtain ⟨architecture, platform, mods⟩ := product
  obtain ⟨modifiers, hmodifiers, hpost⟩ := bind_ok_iff.1 h
  obtain rfl := postInit_ok hpost
  have hexpands := normalisedModifiers_ok_iff_expands.1 ⟨modifiers, hmodifiers⟩
  obtain ⟨-, names, hnames, rfl⟩ := of_normalisedModifiers_ok hmodifiers
  refine List.forall_mem_cons.2 ⟨hexpands platform List.mem_cons_self, fun name hname => ?_⟩
  rw [mem_sortOn, (orders platform mods).names.mem_list, hnames] at hname
  exact hexpands.inClosure hname name (List.mem_singleton_self name)

/-- The names of the modifiers are found again. -/
theorem getModifierNames_ok
    (h : Expands config.allFeatures (flavour.platform :: flavour.modifiers)) :
    ∃ names, getModifierNames orders config flavour = .ok names := by
  obtain ⟨normalised, hnormalised⟩ : ∃ l, Glci.normalisedModifiers
      (orders flavour.platform flavour.modifiers) config.upper config.allFeatures flavour.platform
      flavour.modifiers = .ok l := normalisedModifiers_ok_iff_expands.2 h
  have hexist : ∀ name ∈ normalised, name ∈ config.allFeatures := by
    intro name hname
    obtain ⟨-, names, hnames, rfl⟩ := of_normalisedModifiers_ok hnormalised
    rw [mem_sortOn, (orders flavour.platform flavour.modifiers).names.mem_list, hnames] at hname
    exact (h.inClosure hname name (List.mem_singleton_self name)).1
  obtain ⟨found, hfound⟩ := featuresByName_ok_iff.2 hexist
  exact ⟨_, bind_ok_iff.2 ⟨normalised, mapError_ok_iff.2 hnormalised,
    bind_ok_iff.2 ⟨found, mapError_ok_iff.2 hfound, rfl⟩⟩⟩

theorem getModifierNames_of_flavours {flavourSet : GardenlinuxFlavourSet}
    {flavours : List GardenlinuxFlavour} (h : flavourSet.flavours orders config = .ok flavours) :
    ∀ flavour ∈ flavours, ∃ names, getModifierNames orders config flavour = .ok names := by
  intro flavour hflavour
  obtain ⟨product, -, hproduct⟩ := exists_of_forall₂ (forall₂_of_mapM_ok h) hflavour
  exact getModifierNames_ok (expands_of_flavour hproduct)

end Flavours

/-! ## What has to be there -/

theorem findFlavourSet_ok_iff {flavourSets : List GardenlinuxFlavourSet} {flavourSetName : String}
    {flavourSet : GardenlinuxFlavourSet} :
    findFlavourSet flavourSets flavourSetName = .ok flavourSet ↔
      flavourSets.find? (·.name = flavourSetName) = some flavourSet := by
  unfold findFlavourSet
  split
  · next other hother => simp [hother]
  · next hnone => simp [hnone]

/-- Everything is rendered if the files of all scripts are there, and the flavour set has a
flavour and its flavours can be made. -/
theorem renderAll_ok_iff {orders : CallOrders} {order : Enumeration GardenlinuxFlavour}
    {platformOrder : Enumeration String} {paramOrder : Enumeration NamedParam}
    {config : Glci.Config} {flavourSets : List GardenlinuxFlavourSet} {flavourSetName : String}
    {checkout : Checkout} :
    (∃ rendered, renderAll orders order platformOrder paramOrder config flavourSets flavourSetName
      checkout = .ok rendered) ↔
      (∀ source ∈ taskSources checkout, ∀ step ∈ source.made,
        (checkout.files step.file).isSome) ∧
      ∃ flavourSet, flavourSets.find? (·.name = flavourSetName) = some flavourSet ∧
        flavourSet.products ≠ [] ∧ ∃ flavours, flavourSet.flavours orders config = .ok flavours := by
  rw [← renderTask_ok_iff paramOrder checkout]
  constructor
  · rintro ⟨rendered, h⟩
    obtain ⟨tasks, htasks, h⟩ := bind_ok_iff.1 h
    obtain ⟨flavourSet, hfound, h⟩ := bind_ok_iff.1 h
    obtain ⟨packages, -, h⟩ := bind_ok_iff.1 h
    obtain ⟨flavours, hflavours, h⟩ := bind_ok_iff.1 h
    obtain ⟨main, hmain, -⟩ := bind_ok_iff.1 h
    have htasks := mapError_ok_iff.1 htasks
    have hflavours := mapError_ok_iff.1 hflavours
    refine ⟨⟨tasks, htasks⟩, flavourSet, findFlavourSet_ok_iff.1 hfound, ?_, flavours, hflavours⟩
    obtain ⟨hne, -⟩ := (mkPipeline_ok_iff order platformOrder htasks).1 ⟨main, mapError_ok_iff.1 hmain⟩
    intro hnil
    rw [GardenlinuxFlavourSet.flavours, hnil] at hflavours
    exact hne (Except.ok.inj hflavours).symm
  · rintro ⟨⟨tasks, htasks⟩, flavourSet, hfound, hne, flavours, hflavours⟩
    obtain ⟨packages, hpackages⟩ := mkPipelinePackages_ok paramOrder htasks
    have hne' : flavours ≠ [] := by
      rintro rfl
      have hlength := (forall₂_of_mapM_ok hflavours).length_eq
      exact hne (List.eq_nil_of_length_eq_zero hlength)
    obtain ⟨main, hmain⟩ := (mkPipeline_ok_iff order platformOrder
      htasks).2 ⟨hne', getModifierNames_of_flavours hflavours⟩
    exact ⟨_, bind_ok_iff.2 ⟨tasks, mapError_ok_iff.2 htasks, bind_ok_iff.2 ⟨flavourSet,
      findFlavourSet_ok_iff.2 hfound, bind_ok_iff.2 ⟨packages, mapError_ok_iff.2 hpackages,
        bind_ok_iff.2 ⟨flavours, mapError_ok_iff.2 hflavours,
          bind_ok_iff.2 ⟨main, mapError_ok_iff.2 hmain, rfl⟩⟩⟩⟩⟩⟩

end Tkn
