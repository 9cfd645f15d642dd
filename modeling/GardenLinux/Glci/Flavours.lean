import GardenLinux.Glci.Agreement
import GardenLinux.Glci.Steps

/-!
# Flavour sets

`GardenlinuxFlavour`, `GardenlinuxFlavourCombination` and `GardenlinuxFlavourSet` of
`ci/glci/model.py`: a flavour set declares combinations of architectures, platforms and lists of
modifiers, and its flavours are the cross products of these, with normalised modifiers.
-/

namespace Glci

open GardenFeat

structure GardenlinuxFlavour where
  architecture : Architecture
  platform : String
  modifiers : List String
  deriving DecidableEq, Repr

structure GardenlinuxFlavourCombination where
  architectures : List Architecture
  platforms : List String
  modifiers : List (List String)
  deriving DecidableEq, Repr

structure GardenlinuxFlavourSet where
  name : String
  flavourCombinations : List GardenlinuxFlavourCombination
  deriving DecidableEq, Repr

/-- `modifiers`: the flags and the elements are modifiers as well. -/
def modifierNames (allFeatures : FeatureSet) : List String :=
  (allFeatures.entries.filter fun feature =>
    feature.2.type ∈ ["modifier", "element", "flag"]).map (·.1)

/-- `GardenlinuxFlavour.__post_init__`. -/
def GardenlinuxFlavour.postInit (allFeatures : FeatureSet) (flavour : GardenlinuxFlavour) :
    Except ModelError GardenlinuxFlavour :=
  if flavour.platform ∉ platformNames allFeatures then
    .error (.valueError ("unknown platform: " ++ flavour.platform))
  else
    match flavour.modifiers.find? (· ∉ modifierNames allFeatures) with
    | some unknown => .error (.valueError ("unknown modifiers: " ++ unknown))
    | none => .ok flavour

/-- The orders in which `normalised_modifiers` lists its sets, by its arguments. -/
abbrev CallOrders := String → List String → SetOrders

/-- `itertools.product` of a combination. -/
def GardenlinuxFlavourCombination.product (comb : GardenlinuxFlavourCombination) :
    List (Architecture × String × List String) :=
  comb.architectures.flatMap fun arch => comb.platforms.flatMap fun platf =>
    comb.modifiers.map fun mods => (arch, platf, mods)

namespace GardenlinuxFlavourSet

def products (flavourSet : GardenlinuxFlavourSet) : List (Architecture × String × List String) :=
  flavourSet.flavourCombinations.flatMap (·.product)

def flavour (orders : CallOrders) (config : Config) :
    Architecture × String × List String → Except ModelError GardenlinuxFlavour
  | (arch, platf, mods) => do
    let modifiers ← normalisedModifiers (orders platf mods) config.upper config.allFeatures platf mods
    (GardenlinuxFlavour.mk arch platf modifiers).postInit config.allFeatures

/-- `GardenlinuxFlavourSet.flavours`, run to its end. -/
def flavours (orders : CallOrders) (config : Config) (flavourSet : GardenlinuxFlavourSet) :
    Except ModelError (List GardenlinuxFlavour) :=
  flavourSet.products.mapM (flavour orders config)

end GardenlinuxFlavourSet

/-! ## Flavours of `gcp` -/

/-- The features of the repository. -/
def repositoryFeatures : FeatureSet := FeatureSet.ofEntries
  [("_build", ⟨"flag", [], []⟩), ("_dev", ⟨"flag", [], []⟩), ("_ignite", ⟨"flag", [], []⟩),
    ("_iso", ⟨"flag", [], []⟩), ("_nopkg", ⟨"flag", [], []⟩),
    ("_prod", ⟨"flag", ["_nopkg", "_readonly"], []⟩), ("_pxe", ⟨"flag", ["_ignite"], []⟩),
    ("_readonly", ⟨"flag", ["server"], []⟩), ("_slim", ⟨"flag", [], []⟩),
    ("ali", ⟨"platform", ["cloud"], []⟩), ("aws", ⟨"platform", ["cloud"], []⟩),
    ("azure", ⟨"platform", ["cloud"], []⟩), ("base", ⟨"element", ["_slim"], []⟩),
    ("chost", ⟨"element", ["server"], []⟩), ("cloud", ⟨"element", ["server"], []⟩),
    ("example", ⟨"element", ["_slim"], ["chost"]⟩), ("gardener", ⟨"element", ["server"], []⟩),
    ("gcp", ⟨"platform", ["cloud"], []⟩), ("khost", ⟨"element", ["chost"], []⟩),
    ("kvm", ⟨"platform", ["cloud"], []⟩), ("metal", ⟨"platform", ["server"], []⟩),
    ("oci", ⟨"platform", ["base"], []⟩), ("openstack", ⟨"platform", ["cloud"], []⟩),
    ("server", ⟨"element", ["base"], []⟩), ("vhost", ⟨"element", ["server"], []⟩),
    ("vmware", ⟨"platform", ["cloud"], []⟩)]

def repositoryConfig : Config :=
  ⟨asciiUpper, repositoryFeatures, "publisher", "offer", "plan", fun version => .ok version⟩

/-- The flavours in the order of their names. -/
def GardenlinuxFlavour.sorted : Enumeration GardenlinuxFlavour :=
  .sortedOn (fun f => toLex (f.platform, f.modifiers)) fun f f' h => by
    obtain ⟨hplatform, hmodifiers⟩ := Prod.mk.inj (toLex.injective h)
    obtain ⟨architecture, platform, modifiers⟩ := f
    obtain ⟨architecture', platform', modifiers'⟩ := f'
    cases architecture
    cases architecture'
    exact congrArg₂ (GardenlinuxFlavour.mk .amd64) hplatform hmodifiers

def gcpFlavours (modifiers : List (List String)) : GardenlinuxFlavourSet :=
  ⟨"gcp", [⟨[.amd64], ["gcp"], modifiers⟩]⟩

end Glci
