import GardenLinux.Lib.Listing
import GardenLinux.Lib.OsPath
import GardenLinux.Lib.Unpack

/-!
# Directories in the bucket

`upload_dir` and `download_dir` of `ci/glci/s3.py`: the files of a directory become objects under a
destination, and the objects with the destination as the beginning of their key become files again.

What is proved here:

* `Transfer.restored_iff` — when the files come back below a directory and nothing else is written;
* `Transfer.Fits.base_eq` — they come back where the destination leads, so only a destination that
  leads to the local directory itself restores them there.
-/

namespace Glci

open FileTree

variable {β : Type}

/-! ## The source -/

/-- A file that `os.walk` finds: the directories to it, its name and what it contains. -/
structure SourceFile (β : Type) where
  dirs : Path
  filename : List Char
  content : β

def SourceFile.path (f : SourceFile β) : Path := f.dirs ++ [f.filename]

/-- `filename.replace('+', '')`. -/
def processedFilename (filename : List Char) : List Char := Text.replace ['+'] [] filename

/-- Where the file stands without `+` in its name. -/
def SourceFile.cleaned (f : SourceFile β) : Path := f.dirs ++ [processedFilename f.filename]

structure StoredObject (β : Type) where
  key : List Char
  content : β

/-- An upload and the download after it: the directory and its files in the order of the walk, the
destination, the bucket before, `os.path.realpath(local_dir)`, the disk that it is on, and where a
name leads from a directory of the disk.  Links lead to what is there; none are on the way to the
local directory or below it. -/
structure Transfer (β : Type) where
  srcDirPath : Path
  files : List (SourceFile β)
  destDirPath : List Char
  bucket : List (StoredObject β)
  localDir : Path
  disk : FileTree.Tree β
  enter : Path → List Char → Path
  srcProper : IsProper srcDirPath
  filesProper : ∀ f ∈ files, IsProper f.path
  filesApart : files.Pairwise fun f g => ¬ f.path <+: g.path ∧ ¬ g.path <+: f.path
  bucketApart : (bucket.map StoredObject.key).Nodup
  localProper : IsProper localDir
  diskProper : ∀ p, disk p ≠ none → IsProper p
  diskPlain : ∀ p, NoLink disk p
  enterProper : ∀ d c, IsProper d → isProper c = true → IsProper (enter d c)
  enterThere : ∀ d c, enter d c ≠ d ++ [c] → disk (enter d c) ≠ none
  enterLocal : ∀ d c, localDir <+: d ++ [c] ∨ d ++ [c] <+: localDir → enter d c = d ++ [c]

namespace Transfer

variable (s : Transfer β)

/-! ## `upload_dir` -/

def relativeFilePath (f : SourceFile β) : List Char :=
  relpath (osJoin (join (s.srcDirPath ++ f.dirs)) (processedFilename f.filename))
    (join s.srcDirPath)

def dstFilePath (f : SourceFile β) : List Char := osJoin s.destDirPath (s.relativeFilePath f)

/-- An object replaces the one with its key. -/
def put (bucket : List (StoredObject β)) (o : StoredObject β) : List (StoredObject β) :=
  bucket.filter (·.key ≠ o.key) ++ [o]

def uploadDir : List (StoredObject β) :=
  s.files.foldl (fun bucket f => put bucket ⟨s.dstFilePath f, f.content⟩) s.bucket

/-! ## `download_dir` -/

/-- `bucket.objects.filter(Prefix=s3_dir)`: in the order of the keys. -/
def objects : List (StoredObject β) :=
  sortOn StoredObject.key (s.uploadDir.filter fun o => s.destDirPath.isPrefixOf o.key)

def localDestDir (key : List Char) : List Char := osJoin (join s.localDir) (osSplit key).1

/-- Where the file for a key is written; a name such as `..` is none of a file. -/
def localDestFile (key : List Char) : Option Path :=
  let filename := (osSplit key).2
  if isProper filename then some (resolve s.enter (s.localDestDir key) ++ [filename]) else none

def item (o : StoredObject β) : FileTree.Item β where
  dirs := visited s.enter (s.localDestDir o.key)
  target := s.localDestFile o.key
  content := o.content

def downloadDir : Except Failure (Disk β) :=
  s.objects.foldlM (fun w o => unpack w (s.item o)) ⟨s.disk, []⟩

/-! ## What is promised -/

/-- Distinct files have distinct keys, each one is created at its path below the base, and all that
is written is below the local directory. -/
structure Restored (base : Path) : Prop where
  distinct : s.files.Pairwise fun f g => s.dstFilePath f ≠ s.dstFilePath g
  downloaded : ∃ w, s.downloadDir = .ok w ∧
    (∀ f ∈ s.files, base ++ f.cleaned ∈ w.written ∧
      w.tree (base ++ f.cleaned) = some (.leaf f.content none)) ∧
    ∀ p ∈ w.written, s.localDir <+: p

/-- The key of a file: the destination and the path of the file. -/
def keyBelow (p : Path) : List Char := osJoin s.destDirPath (relative p)

/-- The objects that the download meets: one for each file, and those that were in the bucket
under other keys. -/
def Served (o : StoredObject β) : Prop :=
  ((∃ f ∈ s.files, o = ⟨s.keyBelow f.cleaned, f.content⟩) ∨
    (o ∈ s.bucket ∧ ∀ f ∈ s.files, o.key ≠ s.keyBelow f.cleaned)) ∧ s.destDirPath <+: o.key

/-- All names are still names of files without `+`, and tell the files apart.  The way to each
object's file goes over directories that are there or below the local directory; the file is below
the local directory too, and no directory for any object.  For each source file the object with the
greatest key among those that lead to its path has its content. -/
structure Fits (base : Path) : Prop where
  names : ∀ f ∈ s.files, isProper (processedFilename f.filename) = true
  apart : s.files.Pairwise fun f g => f.cleaned ≠ g.cleaned
  way : ∀ o, s.Served o → ∀ d ∈ visited s.enter (s.localDestDir o.key),
    s.disk d = some .dir ∨ (s.disk d = none ∧ s.localDir <+: d)
  target : ∀ o, s.Served o → ∃ p, s.localDestFile o.key = some p ∧ s.localDir <+: p ∧
    s.disk p ≠ some .dir ∧ ∀ o', s.Served o' → p ∉ visited s.enter (s.localDestDir o'.key)
  last : ∀ f ∈ s.files, ∃ o, s.Served o ∧ s.localDestFile o.key = some (base ++ f.cleaned) ∧
    o.content = f.content ∧
    ∀ o', s.Served o' → s.localDestFile o'.key = some (base ++ f.cleaned) → o'.key ≤ o.key

/-! ## Keys -/

variable {s}

theorem isProper_cleaned {f : SourceFile β} (hf : f ∈ s.files)
    (h : isProper (processedFilename f.filename) = true) : IsProper f.cleaned := by
  intro c hc
  rw [SourceFile.cleaned, List.mem_append, List.mem_singleton] at hc
  obtain hc | rfl := hc
  · exact s.filesProper f hf c (List.mem_append_left _ hc)
  · exact h

/-- The key is made of the path without `+`. -/
theorem dstFilePath_eq {f : SourceFile β} (hf : f ∈ s.files)
    (h : isProper (processedFilename f.filename) = true) :
    s.dstFilePath f = s.keyBelow f.cleaned := by
  have hdirs : IsProper (s.srcDirPath ++ f.dirs) := by
    intro c hc
    rw [List.mem_append] at hc
    obtain hc | hc := hc
    · exact s.srcProper c hc
    · exact s.filesProper f hf c (List.mem_append_left _ hc)
  have hpath : abspath (osJoin (join (s.srcDirPath ++ f.dirs)) (processedFilename f.filename)) =
      s.srcDirPath ++ f.cleaned := by
    rw [abspath_osJoin_join hdirs h, List.append_assoc, SourceFile.cleaned]
  have hne : f.cleaned ≠ [] := List.append_ne_nil_of_right_ne_nil _ (List.cons_ne_nil _ _)
  rw [dstFilePath, relativeFilePath, relpath_eq s.srcProper hne hpath, keyBelow]

theorem keyBelow_injective {p q : Path} (hp : IsProper p) (hq : IsProper q) (hne : p ≠ [])
    (hne' : q ≠ []) (h : s.keyBelow p = s.keyBelow q) : p = q :=
  relative_injective hp hq hne hne' (osJoin_injective (head?_relative hp) (head?_relative hq) h)

/-! ## The bucket after the upload -/

theorem mem_put {bucket : List (StoredObject β)} {o x : StoredObject β} :
    x ∈ put bucket o ↔ x = o ∨ (x ∈ bucket ∧ x.key ≠ o.key) := by
  simp [put, or_comm]

theorem nodup_put {bucket : List (StoredObject β)} {o : StoredObject β}
    (h : (bucket.map StoredObject.key).Nodup) : ((put bucket o).map StoredObject.key).Nodup := by
  rw [put, List.map_append, List.nodup_append]
  refine ⟨h.sublist (List.filter_sublist.map _), List.nodup_singleton _, ?_⟩
  intro k hk k' hk'
  simp only [List.mem_map, List.mem_filter, decide_eq_true_eq] at hk
  obtain ⟨x, ⟨-, hx⟩, rfl⟩ := hk
  simp only [List.map_cons, List.map_nil, List.mem_singleton] at hk'
  exact hk' ▸ hx

/-- Objects that were put under distinct keys are all there, and so are those under other keys. -/
theorem mem_foldl_put {os bucket : List (StoredObject β)} {x : StoredObject β}
    (h : os.Pairwise fun o o' => o.key ≠ o'.key) :
    x ∈ os.foldl put bucket ↔ x ∈ os ∨ (x ∈ bucket ∧ ∀ o ∈ os, x.key ≠ o.key) := by
  induction os generalizing bucket with
  | nil => simp
  | cons o os ih =>
    rw [List.pairwise_cons] at h
    rw [List.foldl_cons, ih h.2, mem_put, List.forall_mem_cons, List.mem_cons]
    constructor
    · rintro (hx | ⟨rfl | ⟨hx, hne⟩, hos⟩)
      · exact .inl (.inr hx)
      · exact .inl (.inl rfl)
      · exact .inr ⟨hx, hne, hos⟩
    · rintro ((rfl | hx) | ⟨hx, hne, hos⟩)
      · exact .inr ⟨.inl rfl, h.1⟩
      · exact .inl hx
      · exact .inr ⟨.inr ⟨hx, hne⟩, hos⟩

theorem nodup_foldl_put {os bucket : List (StoredObject β)}
    (h : (bucket.map StoredObject.key).Nodup) :
    ((os.foldl put bucket).map StoredObject.key).Nodup := by
  induction os generalizing bucket with
  | nil => exact h
  | cons o os ih => exact ih (nodup_put h)

theorem uploadDir_eq :
    s.uploadDir = (s.files.map fun f => ⟨s.dstFilePath f, f.content⟩).foldl put s.bucket :=
  List.foldl_map.symm

/-- The download meets the objects that it should. -/
theorem mem_objects (hnames : ∀ f ∈ s.files, isProper (processedFilename f.filename) = true)
    (hdistinct : s.files.Pairwise fun f g => s.dstFilePath f ≠ s.dstFilePath g)
    {o : StoredObject β} : o ∈ s.objects ↔ s.Served o := by
  have hkey : ∀ f ∈ s.files, s.dstFilePath f = s.keyBelow f.cleaned :=
    fun f hf => dstFilePath_eq hf (hnames f hf)
  rw [objects, mem_sortOn, List.mem_filter, List.isPrefixOf_iff_prefix, uploadDir_eq,
    mem_foldl_put (List.pairwise_map.2 hdistinct), Served, List.forall_mem_map, List.mem_map]
  apply and_congr_left'
  apply or_congr
  · constructor
    · rintro ⟨f, hf, rfl⟩
      exact ⟨f, hf, by rw [hkey f hf]⟩
    · rintro ⟨f, hf, rfl⟩
      exact ⟨f, hf, by rw [hkey f hf]⟩
  · apply and_congr_right'
    apply forall₂_congr
    intro f hf
    rw [hkey f hf]

theorem eq_of_key_eq {o o' : StoredObject β} (ho : o ∈ s.objects) (ho' : o' ∈ s.objects)
    (h : o.key = o'.key) : o = o' := by
  rw [objects, mem_sortOn, List.mem_filter, uploadDir_eq] at ho ho'
  exact List.inj_on_of_nodup_map (nodup_foldl_put s.bucketApart) ho.1 ho'.1 h

/-! ## The download -/

theorem downloadDir_eq : s.downloadDir = unpackAll ⟨s.disk, []⟩ (s.objects.map s.item) :=
  List.foldlM_map.symm

/-- The last object for a path has the greatest key. -/
theorem lastAt_objects {p : Path} {x : FileTree.Item β} (h : lastAt (s.objects.map s.item) p = some x) :
    ∃ o ∈ s.objects, s.item o = x ∧ s.localDestFile o.key = some p ∧
      ∀ o' ∈ s.objects, s.localDestFile o'.key = some p → o'.key ≤ o.key := by
  rw [lastAt, List.filter_map, List.getLast?_map, Option.map_eq_some_iff] at h
  obtain ⟨o, hlast, rfl⟩ := h
  have hmem := List.mem_of_getLast? hlast
  rw [List.mem_filter] at hmem
  obtain ⟨os, hos⟩ := List.getLast?_eq_some_iff.1 hlast
  refine ⟨o, hmem.1, rfl, of_decide_eq_true hmem.2, ?_⟩
  intro o' ho' htarget
  have hsorted : (os ++ [o]).Pairwise fun a b => a.key ≤ b.key := by
    rw [← hos]
    exact (pairwise_sortOn _).filter _
  have hmem' : o' ∈ os ++ [o] := by
    rw [← hos, List.mem_filter]
    exact ⟨ho', decide_eq_true htarget⟩
  rw [List.mem_append, List.mem_singleton] at hmem'
  obtain hos' | rfl := hmem'
  · exact (List.pairwise_append.1 hsorted).2.2 o' hos' o (List.mem_singleton_self o)
  · exact le_rfl

theorem isProper_localDestFile {key : List Char} {p : Path} (h : s.localDestFile key = some p) :
    IsProper p := by
  simp only [localDestFile, Option.ite_none_right_eq_some, Option.some.injEq] at h
  obtain ⟨hname, rfl⟩ := h
  intro c hc
  rw [List.mem_append, List.mem_singleton] at hc
  obtain hc | rfl := hc
  · exact isProper_resolve s.enterProper _ c hc
  · exact hname

/-- Only proper names come onto the disk. -/
theorem isProper_of_after {os : List (StoredObject β)} {w : Disk β}
    (h : After s.disk (os.map s.item) w) {p : Path} (hp : w.tree p ≠ none) : IsProper p := by
  obtain ⟨x, hlast, -⟩ | ⟨-, ⟨x, hx, hpx⟩, -, -⟩ | ⟨-, -, heq⟩ := h.cases p
  · obtain ⟨hx, htarget⟩ := lastAt_some hlast
    obtain ⟨o, -, rfl⟩ := List.mem_map.1 hx
    exact isProper_localDestFile htarget
  · obtain ⟨o, -, rfl⟩ := List.mem_map.1 hx
    exact isProper_visited s.enterProper hpx
  · exact s.diskProper p (heq ▸ hp)

/-! ## When the files come back -/

theorem Restored.fits {base : Path} (h : s.Restored base) : s.Fits base := by
  obtain ⟨hdistinct, w, hw, hfiles, hinside⟩ := h
  rw [downloadDir_eq] at hw
  obtain ⟨hclear, hafter⟩ := After.of_unpackAll hw
  have hnames : ∀ f ∈ s.files, isProper (processedFilename f.filename) = true := by
    intro f hf
    have hp := isProper_of_after hafter (p := base ++ f.cleaned) (by simp [(hfiles f hf).2])
    exact hp _ (by simp [SourceFile.cleaned])
  have hserved : ∀ o, s.Served o → s.item o ∈ s.objects.map s.item :=
    fun o ho => List.mem_map_of_mem ((mem_objects hnames hdistinct).2 ho)
  refine ⟨hnames, ?_, ?_, ?_, ?_⟩
  · refine hdistinct.imp_of_mem ?_
    intro f g hf hg hne heq
    rw [dstFilePath_eq hf (hnames f hf), dstFilePath_eq hg (hnames g hg), heq] at hne
    exact hne rfl
  · intro o ho d hd
    obtain ⟨hleaf, -⟩ := hclear _ (hserved o ho)
    cases hnode : s.disk d with
    | none =>
      have hwritten := (hafter.written d).2 (.inr ⟨⟨_, hserved o ho, hd⟩, hnode⟩)
      exact .inr ⟨rfl, hinside d hwritten⟩
    | some node =>
      cases node with
      | dir => exact .inl rfl
      | leaf a target => exact absurd hnode (hleaf d hd a target)
  · intro o ho
    obtain ⟨-, p, hp, hdir, hway⟩ := hclear _ (hserved o ho)
    have hwritten : p ∈ w.written := (hafter.written p).2 (.inl ⟨_, hserved o ho, hp⟩)
    exact ⟨p, hp, hinside p hwritten, hdir, fun o' ho' => hway _ (hserved o' ho')⟩
  · intro f hf
    obtain ⟨hwritten, hleaf⟩ := hfiles f hf
    obtain ⟨x, hlast, hx⟩ | ⟨-, -, -, hdir⟩ | ⟨hlast, -, heq⟩ := hafter.cases (base ++ f.cleaned)
    · obtain ⟨o, ho, rfl, htarget, hgreatest⟩ := lastAt_objects hlast
      rw [hleaf, Option.some.injEq, Node.leaf.injEq] at hx
      refine ⟨o, (mem_objects hnames hdistinct).1 ho, htarget, hx.1.symm, ?_⟩
      intro o' ho'
      exact hgreatest o' ((mem_objects hnames hdistinct).2 ho')
    · simp [hleaf] at hdir
    · -- the file would have been there before, but it was written
      obtain ⟨x, hx, htarget⟩ | ⟨-, hnone⟩ := (hafter.written _).1 hwritten
      · exact absurd htarget (lastAt_eq_none_iff.1 hlast x hx)
      · simp [hleaf, hnone] at heq

theorem Fits.restored {base : Path} (h : s.Fits base) : s.Restored base := by
  have hdistinct : s.files.Pairwise fun f g => s.dstFilePath f ≠ s.dstFilePath g := by
    refine h.apart.imp_of_mem ?_
    intro f g hf hg hne heq
    have hf' := h.names f hf
    have hg' := h.names g hg
    rw [dstFilePath_eq hf hf', dstFilePath_eq hg hg'] at heq
    exact hne (keyBelow_injective (isProper_cleaned hf hf') (isProper_cleaned hg hg')
      (by simp [SourceFile.cleaned]) (by simp [SourceFile.cleaned]) heq)
  have hmem : ∀ o, o ∈ s.objects ↔ s.Served o := fun o => mem_objects h.names hdistinct
  have hclear : Clear s.disk (s.objects.map s.item) := by
    rw [Clear, List.forall_mem_map]
    intro o ho
    refine ⟨?_, ?_⟩
    · intro d hd a target hleaf
      obtain hdir | ⟨hnone, -⟩ := h.way o ((hmem o).1 ho) d hd
      · simp [hdir] at hleaf
      · simp [hnone] at hleaf
    · obtain ⟨p, hp, -, hdir, hway⟩ := h.target o ((hmem o).1 ho)
      refine ⟨p, hp, hdir, ?_⟩
      rw [List.forall_mem_map]
      exact fun o' ho' => hway o' ((hmem o').1 ho')
  obtain ⟨w, hw⟩ := unpackAll_ok_iff.2 hclear
  obtain ⟨-, hafter⟩ := After.of_unpackAll hw
  refine ⟨hdistinct, w, by rw [downloadDir_eq, hw], ?_, ?_⟩
  · intro f hf
    obtain ⟨o, ho, htarget, hcontent, hgreatest⟩ := h.last f hf
    have ho' := (hmem o).2 ho
    have hitem : s.item o ∈ s.objects.map s.item := List.mem_map_of_mem ho'
    refine ⟨(hafter.written _).2 (.inl ⟨_, hitem, htarget⟩), ?_⟩
    cases hlast : lastAt (s.objects.map s.item) (base ++ f.cleaned) with
    | none => exact absurd htarget (lastAt_eq_none_iff.1 hlast _ hitem)
    | some x =>
      obtain ⟨o₁, ho₁, rfl, htarget₁, hgreatest₁⟩ := lastAt_objects hlast
      have hle := hgreatest o₁ ((hmem o₁).1 ho₁) htarget₁
      obtain rfl : o = o₁ := eq_of_key_eq ho' ho₁ (le_antisymm (hgreatest₁ o ho' htarget) hle)
      rw [hafter.leaf _ _ hlast, ← hcontent]
      rfl
  · intro p hp
    obtain ⟨x, hx, htarget⟩ | ⟨⟨x, hx, hpx⟩, hnone⟩ := (hafter.written p).1 hp
    · obtain ⟨o, ho, rfl⟩ := List.mem_map.1 hx
      obtain ⟨q, hq, hinside, -⟩ := h.target o ((hmem o).1 ho)
      obtain rfl : p = q := Option.some.inj (htarget.symm.trans hq)
      exact hinside
    · obtain ⟨o, ho, rfl⟩ := List.mem_map.1 hx
      obtain hdir | ⟨-, hinside⟩ := h.way o ((hmem o).1 ho) p hpx
      · simp [hnone] at hdir
      · exact hinside

/-! ## Where they come back -/

variable (s) in
/-- Where the destination leads from the local directory. -/
def landing : Path := resolve s.enter (osJoin (join s.localDir) s.destDirPath)

theorem keyBelow_concat {p : Path} {name : List Char} (hp : IsProper p)
    (hname : isProper name = true) :
    s.keyBelow (p ++ [name]) = osJoin s.destDirPath (front p) ++ name := by
  have hpath : IsProper (p ++ [name]) := by
    intro c hc
    rw [List.mem_append, List.mem_singleton] at hc
    obtain hc | rfl := hc
    · exact hp c hc
    · exact hname
  rw [keyBelow, osJoin, if_neg (head?_relative hpath), relative_concat, osJoin,
    if_neg (head?_front hp)]
  split
  · rw [List.append_assoc]
  · rw [List.append_assoc, List.cons_append]

/-- A file of the directory comes back at its path below the place that the destination leads to. -/
theorem localDestFile_keyBelow {p : Path} (hland : s.localDir <+: s.landing) (hp : IsProper p)
    (hne : p ≠ []) :
    s.localDestFile (s.keyBelow p) = some (s.landing ++ p) := by
  obtain ⟨q, name, rfl⟩ := (List.eq_nil_or_concat' p).resolve_left hne
  have hq : IsProper q := fun c hc => hp c (List.mem_append_left _ hc)
  have hname : isProper name = true := hp name (by simp)
  have hslash := (isProper_spec hname).2.1
  simp only [localDestFile, localDestDir, keyBelow_concat hq hname,
    osSplit_append (getLast?_osJoin_front s.destDirPath q) hslash, if_pos hname]
  have hway : q.foldl (step s.enter) s.landing = s.landing ++ q := by
    apply foldl_step_of_isProper hq
    intro r c _
    apply s.enterLocal
    exact .inl (hland.trans ⟨r ++ [c], (List.append_assoc _ _ _).symm⟩)
  rw [resolve, components_osJoin_head, components_osJoin_osJoin _ _ (head?_front hq),
    components_front hq, List.foldl_append]
  rw [landing, resolve] at hway
  rw [hway, landing, resolve, List.append_assoc]

/-- With nothing else in the bucket they come back below that place and nowhere else. -/
theorem Fits.base_eq {base : Path} (h : s.Fits base) (hland : s.localDir <+: s.landing)
    (hbucket : s.bucket = []) (hfiles : s.files ≠ []) : base = s.landing := by
  have hshift : ∀ f ∈ s.files, ∃ g ∈ s.files, s.landing ++ g.cleaned = base ++ f.cleaned := by
    intro f hf
    obtain ⟨o, ⟨⟨g, hg, rfl⟩ | ⟨hmem, -⟩, -⟩, htarget, -⟩ := h.last f hf
    · rw [localDestFile_keyBelow hland (isProper_cleaned hg (h.names g hg))
        (by simp [SourceFile.cleaned])] at htarget
      exact ⟨g, hg, Option.some.inj htarget⟩
    · rw [hbucket] at hmem
      cases hmem
  have hfinite : {f | f ∈ s.files}.Finite := List.finite_toSet s.files
  have hnonempty : {f | f ∈ s.files}.Nonempty := List.exists_mem_of_ne_nil _ hfiles
  obtain ⟨longest, hlongest, hle⟩ :=
    Set.exists_max_image _ (fun f => f.cleaned.length) hfinite hnonempty
  obtain ⟨shortest, hshortest, hge⟩ :=
    Set.exists_min_image _ (fun f => f.cleaned.length) hfinite hnonempty
  obtain ⟨g, hg, heq⟩ := hshift longest hlongest
  obtain ⟨g', hg', heq'⟩ := hshift shortest hshortest
  have hlen := congrArg List.length heq
  have hlen' := congrArg List.length heq'
  have hg := hle g hg
  have hg' := hge g' hg'
  simp only [List.length_append] at hlen hlen'
  exact (List.append_inj heq (by omega)).1.symm

/-- **Upload and download.** The files come back below a directory, and nothing else is written,
exactly if they fit there. -/
theorem restored_iff (s : Transfer β) (base : Path) : s.Restored base ↔ s.Fits base :=
  ⟨Restored.fits, Fits.restored⟩

/-- One file, uploaded to the default destination and downloaded into a directory. -/
def atRoot : Transfer ℕ where
  srcDirPath := ["src".toList]
  files := [⟨[], "a".toList, 0⟩]
  destDirPath := "/".toList
  bucket := []
  localDir := ["local".toList]
  disk p := if p = [] ∨ p = ["local".toList] then some .dir else none
  srcProper := by decide
  filesProper := by decide
  filesApart := List.pairwise_singleton _ _
  bucketApart := List.nodup_nil
  localProper := by decide
  diskProper p hp := by
    rw [ne_eq, ite_eq_right_iff, Classical.not_imp] at hp
    obtain ⟨rfl | rfl, -⟩ := hp
    · decide
    · decide
  diskPlain p q _ a target hq := by
    beta_reduce at hq
    split at hq
    · cases hq
    · cases hq
  enter := lexical
  enterProper d c hd hc c' hc' := by
    rw [lexical, List.mem_append, List.mem_singleton] at hc'
    obtain hc' | rfl := hc'
    · exact hd c' hc'
    · exact hc
  enterThere _ _ hne := absurd rfl hne
  enterLocal _ _ _ := rfl

/-- The file is written to the root directory. -/
theorem restored_fails : ¬ ∃ base, atRoot.Restored base := by
  rintro ⟨base, -, w, hw, -, hinside⟩
  have hwritten : atRoot.downloadDir.toOption.map Disk.written = some [["a".toList]] := by
    decide +kernel
  rw [hw] at hwritten
  have hmem : ["a".toList] ∈ w.written := by
    rw [Option.some.inj hwritten]
    exact List.mem_singleton_self _
  exact absurd (hinside _ hmem) (by decide)

/-- Files that differ in `+` only have one key. -/
theorem dstFilePath_eq_of_cleaned {f g : SourceFile β} (h : f.cleaned = g.cleaned) :
    s.dstFilePath f = s.dstFilePath g := by
  obtain ⟨hdirs, hname⟩ := List.append_inj' h rfl
  simp only [dstFilePath, relativeFilePath, hdirs, List.singleton_inj.1 hname]

end Transfer

end Glci
