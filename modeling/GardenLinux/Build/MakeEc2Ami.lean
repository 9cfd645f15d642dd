import GardenLinux.Glci.NextRelease

/-!
# The name of a new AMI

`register_image` of `bin/make-ec2-ami` looks for a name that no image of the account has, before it
registers the snapshot under it.

What is proved here:

* `searchNumber_append` — the number of a name that ends in one is found;
* `registerImage_fresh` — the new image has the name of the build, maybe with a number, and no image
  had that name before;
* `nodup_registerAll` — images that are registered one after the other have different names.
-/

namespace MakeEc2Ami

open Glci

/-! ## The program -/

/-- `\d`. -/
def isDecimal (c : Char) : Bool := (pyDigit c).isSome

/-- `(\d+)$` at the beginning of a text. -/
def matchNumber (text : List Char) : Option (List Char) :=
  let digits := text.takeWhile isDecimal
  let rest := text.dropWhile isDecimal
  if digits ≠ [] ∧ (rest = [] ∨ rest = ['\n']) then some digits else none

/-- `re.search(r"-(\d+)$", name)`, and its group. -/
def searchNumber : List Char → Option (List Char)
  | [] => none
  | c :: name =>
    if c = '-' then
      match matchNumber name with
      | some digits => some digits
      | none => searchNumber name
    else searchNumber name

/-- `idx` after one more image. -/
def nextIdx (imageName : String) (idx : ℤ) (name : String) : ℤ :=
  if imageName.toList.isPrefixOf name.toList then
    if name = imageName then max idx 1
    else
      match (searchNumber name.toList).bind pyInt with
      | some number => max (number + 1) idx
      | none => idx
  else idx

/-- `idx` after all images. -/
def freeIdx (imageName : String) (names : List String) : ℤ := names.foldl (nextIdx imageName) 0

/-- The name for the new image. -/
def freeName (imageName : String) (names : List String) : String :=
  if freeIdx imageName names ≠ 0 then imageName ++ "-" ++ toString (freeIdx imageName names)
  else imageName

structure Ec2ImageBuild where
  region : String
  imageName : String

/-- What `describe-images` returns; the names are those of `doc["Images"]`. -/
structure DescribeImages where
  returncode : ℤ
  stdout : String
  stderr : String
  names : List String

/-- `aws_command_prefix`. -/
def Ec2ImageBuild.awsCommandPrefix (build : Ec2ImageBuild) : List String :=
  ["aws", "--region", build.region, "--output", "json"]

/-- `register_image` up to its command `register-image`. -/
def registerImage (build : Ec2ImageBuild) (described : DescribeImages) (snapshotId : String) :
    Except String (Ec2ImageBuild × List String) :=
  if described.returncode ≠ 0 then
    .error ("Unable to read images for for region: " ++ described.stdout ++ " " ++ described.stderr)
  else
    let imageName := freeName build.imageName described.names
    .ok ({ build with imageName },
      build.awsCommandPrefix ++
        ["ec2", "register-image", "--name", imageName, "--description", "Garden Linux",
          "--architecture", "x86_64", "--root-device-name", "/dev/xvda", "--virtualization-type",
          "hvm", "--ena-support", "--architecture", "x86_64", "--block-device-mapping",
          "DeviceName=/dev/xvda,Ebs=\x7bDeleteOnTermination=True,SnapshotId=" ++ snapshotId ++
            ",VolumeType=gp2\x7d"])

/-- The names of the images after images for some builds have been registered. -/
def registerAll (names : List String) (imageNames : List String) : List String :=
  imageNames.foldl (fun names imageName => freeName imageName names :: names) names

/-! ## Numbers at the end of a name -/

theorem isDecimal_of_isDigit {c : Char} (hc : c.isDigit) : isDecimal c := by
  simp [isDecimal, pyDigit_of_isDigit hc]

theorem isDecimal_dash : isDecimal '-' = false := by decide +kernel

/-- A number with a sign after it does not end the text. -/
theorem matchNumber_append_dash (text rest : List Char) :
    matchNumber (text ++ '-' :: rest) = none := by
  have hdash : '-' ∈ (text ++ '-' :: rest).dropWhile isDecimal := by
    have hmem : '-' ∈ (text ++ '-' :: rest).takeWhile isDecimal ++
        (text ++ '-' :: rest).dropWhile isDecimal := by
      rw [List.takeWhile_append_dropWhile]
      simp
    refine (List.mem_append.1 hmem).resolve_left fun htake => ?_
    have hdecimal := List.mem_takeWhile_imp htake
    simp [isDecimal_dash] at hdecimal
  unfold matchNumber
  simp only
  rw [if_neg]
  rintro ⟨-, hnil | hnewline⟩
  · simp [hnil] at hdash
  · simp [hnewline] at hdash

theorem matchNumber_digits {digits : List Char} (hne : digits ≠ []) (h : ∀ c ∈ digits, c.isDigit) :
    matchNumber digits = some digits := by
  have hdecimal : ∀ c ∈ digits, isDecimal c := fun c hc => isDecimal_of_isDigit (h c hc)
  have htake := List.takeWhile_eq_self_iff.2 hdecimal
  have hdrop := List.dropWhile_eq_nil_iff.2 hdecimal
  simp [matchNumber, htake, hdrop, hne]

/-- The number at the end of a name is found, whatever stands before it. -/
theorem searchNumber_append {digits : List Char} (hne : digits ≠ []) (h : ∀ c ∈ digits, c.isDigit)
    (name : List Char) : searchNumber (name ++ '-' :: digits) = some digits := by
  induction name with
  | nil => simp [searchNumber, matchNumber_digits hne h]
  | cons c name ih =>
    rw [List.cons_append, searchNumber]
    by_cases hc : c = '-'
    · rw [if_pos hc, matchNumber_append_dash name digits]
      exact ih
    · rw [if_neg hc]
      exact ih

/-! ## A free index -/

section Loop

variable {imageName name : String} {idx : ℤ}

/-- The name with a number. -/
def numbered (imageName : String) (number : ℤ) : String := imageName ++ "-" ++ toString number

theorem le_nextIdx (imageName : String) (idx : ℤ) (name : String) :
    idx ≤ nextIdx imageName idx name := by
  unfold nextIdx
  split
  · split
    · omega
    · split <;> omega
  · omega

/-- The number of an image is smaller than the index after it. -/
theorem lt_nextIdx_numbered {n : ℕ} : (n : ℤ) < nextIdx imageName idx (numbered imageName n) := by
  have hnumber := Text.toList_toString_natCast n
  have htext : (numbered imageName n).toList =
      imageName.toList ++ '-' :: Nat.toDigits 10 n := by
    simp only [numbered, String.toList_append, hnumber, List.append_assoc]
    rfl
  have hsearch : (searchNumber (numbered imageName n).toList).bind pyInt = some (n : ℤ) := by
    rw [htext, searchNumber_append Nat.toDigits_ne_nil (Text.isDigit_toDigits n), Option.bind_some,
      ← hnumber]
    exact WorkingTree.pyInt_toString n
  have hstart : imageName.toList.isPrefixOf (numbered imageName n).toList := by simp [numbered]
  have hne : numbered imageName n ≠ imageName := by
    intro heq
    have hlength := congrArg (fun s : String => s.toList.length) heq
    simp only [htext, List.length_append, List.length_cons] at hlength
    omega
  rw [nextIdx, if_pos hstart, if_neg hne, hsearch]
  simp only
  omega

theorem one_le_nextIdx_self : 1 ≤ nextIdx imageName idx imageName := by
  have hstart : imageName.toList.isPrefixOf imageName.toList := by simp
  rw [nextIdx, if_pos hstart, if_pos rfl]
  omega

theorem le_foldl_nextIdx (imageName : String) (names : List String) (idx : ℤ) :
    idx ≤ names.foldl (nextIdx imageName) idx := by
  induction names generalizing idx with
  | nil => exact le_refl idx
  | cons name names ih => exact (le_nextIdx imageName idx name).trans (ih _)

/-- What every index after an image exceeds, the index after all images exceeds as well. -/
theorem lt_freeIdx_of_mem {names : List String} {number : ℤ} (hmem : name ∈ names)
    (h : ∀ idx, number < nextIdx imageName idx name) : number < freeIdx imageName names := by
  obtain ⟨before, after, rfl⟩ := List.append_of_mem hmem
  rw [freeIdx, List.foldl_append, List.foldl_cons]
  exact (h _).trans_le (le_foldl_nextIdx imageName after _)

theorem freeIdx_nonneg (imageName : String) (names : List String) : 0 ≤ freeIdx imageName names :=
  le_foldl_nextIdx imageName names 0

/-- No image has the name for the new one. -/
theorem freeName_notMem (imageName : String) (names : List String) :
    freeName imageName names ∉ names := by
  intro hmem
  unfold freeName at hmem
  by_cases hidx : freeIdx imageName names = 0
  · rw [if_neg (not_not.2 hidx)] at hmem
    have hlt : 0 < freeIdx imageName names := lt_freeIdx_of_mem hmem fun idx => one_le_nextIdx_self
    omega
  · rw [if_pos hidx] at hmem
    obtain ⟨n, hn⟩ := Int.eq_ofNat_of_zero_le (freeIdx_nonneg imageName names)
    rw [hn] at hmem
    have hlt : (n : ℤ) < freeIdx imageName names :=
      lt_freeIdx_of_mem hmem fun idx => lt_nextIdx_numbered
    omega

theorem freeName_eq (imageName : String) (names : List String) :
    freeName imageName names = imageName ∨
      ∃ number : ℤ, 0 < number ∧ freeName imageName names = numbered imageName number := by
  unfold freeName
  by_cases hidx : freeIdx imageName names = 0
  · rw [if_neg (not_not.2 hidx)]
    exact Or.inl rfl
  · have hnonneg := freeIdx_nonneg imageName names
    rw [if_pos hidx]
    exact Or.inr ⟨freeIdx imageName names, by omega, rfl⟩

end Loop

/-! ## New images -/

/-- The new image has the name of the build or that name with a positive number, and no image had
this name before. -/
theorem registerImage_fresh {build build' : Ec2ImageBuild} {described : DescribeImages}
    {snapshotId : String} {command : List String}
    (h : registerImage build described snapshotId = .ok (build', command)) :
    (build'.imageName = build.imageName ∨
        ∃ number : ℤ, 0 < number ∧ build'.imageName = build.imageName ++ "-" ++ toString number) ∧
      build'.imageName ∉ described.names ∧
      ∃ before after, command = before ++ "--name" :: build'.imageName :: after := by
  unfold registerImage at h
  split at h
  · cases h
  · obtain ⟨rfl, rfl⟩ := Prod.mk.inj (Except.ok.inj h)
    exact ⟨freeName_eq build.imageName described.names,
      freeName_notMem build.imageName described.names,
      build.awsCommandPrefix ++ ["ec2", "register-image"], _, rfl⟩

/-- An account with images whose names begin with the name of the build. -/
def someImages : DescribeImages where
  returncode := 0
  stdout := ""
  stderr := ""
  names := ["gardenlinux-27", "gardenlinux-27-1", "gardenlinux-27-amd64", "gardenlinux-27-1-7"]

theorem registerImage_fresh_someImages : "gardenlinux-27-8" ∉ someImages.names := by
  obtain ⟨command, hrun⟩ : ∃ command,
      registerImage ⟨"eu-central-1", "gardenlinux-27"⟩ someImages "snap-1" =
        .ok (⟨"eu-central-1", "gardenlinux-27-8"⟩, command) := ⟨_, rfl⟩
  exact (registerImage_fresh hrun).2.1

/-- Images that are registered one after the other have different names. -/
theorem nodup_registerAll {names : List String} (h : names.Nodup) (imageNames : List String) :
    (registerAll names imageNames).Nodup := by
  induction imageNames generalizing names with
  | nil => exact h
  | cons imageName imageNames ih =>
    exact ih (List.nodup_cons.2 ⟨freeName_notMem imageName names, h⟩)

end MakeEc2Ami
