import Mathlib
import GardenLinux.Lib.FileTree
import GardenLinux.Lib.TextFilter

/-!
# Partitions of an image

`bin/makepart` reads a description in the form of an fstab and makes a file for every partition.
It takes the entries in the order of their depth, the deepest first: it copies the directory of an
entry into a file system and empties the directory, so that what was copied is not copied again with
a directory above.  The root comes last, and the tables `/etc/fstab` and `/etc/veritytab` are
written right before it is copied.

What is proved here:

* `pairwise_sortEntries` — the entries are taken in the order of their depth;
* `after_step` and `after_loop` — what the parts of a turn preserve, the loop preserves, also where
  it stops.
-/

namespace GardenBuild

open TextFilter FileTree

abbrev Text := List Char

/-! ## The description -/

/-- An entry as `read -r depth source target fs options args` takes it from a line. -/
structure Entry where
  line : Text
  depth : ℕ
  source : Text
  target : Text
  fs : Text
  options : Text
  args : Text
deriving DecidableEq

/-- `sed 's#^/\+##;s#/\+$##' | awk -F '/' '{ print NF }'`. -/
def pathDepth (target : Text) : ℕ :=
  let inner := (target.dropWhile (· = '/')).rdropWhile (· = '/')
  if inner = [] then 0 else (inner.splitOn '/').length

/-- What is left of a line behind its first word. -/
def skipWord (line : Text) : Text := (line.dropWhile Bash.isBlank).dropWhile (!Bash.isBlank ·)

/-- The first four words of a line, and what is left of it. -/
def readEntry (line : Text) : Entry :=
  let field (n : ℕ) := ((words line)[n]?).getD []
  { line := line
    depth := pathDepth (field 1)
    source := field 0
    target := field 1
    fs := field 2
    options := field 3
    args := (((skipWord ∘ skipWord ∘ skipWord ∘ skipWord) line).dropWhile Bash.isBlank).rdropWhile
      Bash.isBlank }

/-- `sed 's/#.*//;/^[[:blank:]]*$/d'` of a line. -/
def stripComment (line : Text) : Option Text :=
  let line := line.takeWhile (· ≠ '#')
  if line.all Bash.isBlank then none else some line

/-- The lines that `while read` takes: a line without its newline is not one of them. -/
def readLines (text : Text) : List Text := (text.splitOn '\n').dropLast

/-- The entries in the order of the description. -/
def entries (text : Text) : List Entry := ((readLines text).filterMap stripComment).map readEntry

/-- `sort -k 1 -n -r`, where the lines of one depth are compared as texts. -/
def sortEntries (collate : Text → Text → Bool) (es : List Entry) : List Entry :=
  es.insertionSort fun e e' => e'.depth < e.depth ∨ (e.depth = e'.depth ∧ collate e'.line e.line)

/-! ## The attributes of a partition -/

/-- The variables that are set from the fields of an entry. -/
structure Attributes where
  type : Text
  size : Text
  resize : Bool
  verity : Bool
  syslinux : Bool

/-- `IFS="=" read -r key value`: a delimiter behind the last word is dropped. -/
def readPair (arg : Text) : Text × Text :=
  match arg.span (· ≠ '=') with
  | (key, []) => (key, [])
  | (key, _ :: value) =>
    (key, if value.count '=' = 1 ∧ value.getLast? = some '=' then value.dropLast else value)

/-- The cases of an argument. -/
def Attributes.arg (a : Attributes) (arg : Text) : Attributes :=
  let (key, value) := readPair arg
  if key = "type".toList then { a with type := value }
  else if key = "size".toList then { a with size := value, resize := false }
  else if key = "verity".toList then { a with verity := true }
  else if key = "syslinux".toList then { a with syslinux := true }
  else a

/-- The programs that a turn of the loop calls. -/
inductive Command
  | truncate
  | column
  | mkfs
  | syslinux
  | veritysetup
deriving DecidableEq

/-- What a run depends on: the variables, the root file system, the collation of `sort`, and the
programs, which may fail. -/
structure Setup where
  arch : Text
  hasSyslinux : Bool
  kernelVersion : Text
  collate : Text → Text → Bool
  uuidOf : Entry → Text
  verityUuidOf : Entry → Text
  hashOf : Entry → Text
  runs : Command → Entry → Bool

def rootTypeAmd64 : Text := "4f68bce3-e8cd-4db1-96e7-fbcaf984b709".toList

def rootTypeArm64 : Text := "b921b045-1df0-41c3-af44-4c6f280d3fae".toList

/-- The attributes before the arguments are read. -/
def Setup.defaults (s : Setup) (e : Entry) : Attributes :=
  let type := if e.fs = "swap".toList then "swap".toList else "linux".toList
  { type :=
      if e.target = ['/'] ∧ s.arch = "amd64".toList then rootTypeAmd64
      else if e.target = ['/'] ∧ s.arch = "arm64".toList then rootTypeArm64
      else type
    size := []
    resize := true
    verity := false
    syslinux := e.target.take 5 = "/boot".toList ∧ s.hasSyslinux }

/-- `echo "$args" | tr "," "\n"`. -/
def splitArgs (args : Text) : List Text :=
  readLines ((echo args).map fun c => if c = ',' then '\n' else c)

def Setup.attributes (s : Setup) (e : Entry) : Attributes :=
  (splitArgs e.args).foldl Attributes.arg (s.defaults e)

/-! ## The state of the loop -/

/-- The file of a partition: `$uefi_partition`, or one that `mktemp` has made. -/
inductive PartFile
  | uefi
  | temp (n : ℕ)
deriving DecidableEq

/-- What a file holds: what the root file system has there, a table, or what is installed. -/
inductive Content (α : Type)
  | original (a : α)
  | table (rows : List (List Text))
  | installed

/-- The variables that outlive a turn of the loop, and the files. -/
structure Work (α : Type) where
  tree : FileTree.Tree (Content α)
  fstab : List Text
  veritytab : List Text
  dump : Option Text
  pass : Option Text
  etcFstab : Option (List (List Text))
  content : PartFile → FileTree.Tree (Content α)
  partitions : List (Entry × PartFile)

/-- Why a run stops. -/
inductive Abort
  | unset (name : Text)
  | failed (command : Command)
  | unsupported (fs : Text)

/-- A run that stops, with what it has done so far. -/
abbrev Stop (α : Type) := Abort × Work α

variable {α : Type}

/-! ## A turn of the loop -/

/-- The path below `$rootfs_work`; any other text continues the name of that directory. -/
def Entry.path (e : Entry) : Option Path :=
  if e.target = [] ∨ e.target.head? = some '/' then some (components e.target) else none

/-- `file=$([[ "$type" = "uefi" ]] && echo "$uefi_partition" || mktemp)`. -/
def Work.newFile (w : Work α) (a : Attributes) : PartFile :=
  if a.type = "uefi".toList then .uefi else .temp w.partitions.length

/-- `$options` after the root has got its `x-systemd.growfs`. -/
def Entry.finalOptions (e : Entry) (a : Attributes) : Text :=
  if e.depth = 0 ∧ !a.verity then e.options ++ ",x-systemd.growfs".toList else e.options

/-- `echo` with several words. -/
def echoWords (ws : List Text) : Text := [' '].intercalate ws

/-- `column -t`: the words of the lines that have any. -/
def columns (ls : List Text) : List (List Text) := (ls.map words).filter (· ≠ [])

/-- The line for an overlay of a directory that verity protects. -/
def overlayLine (dir : Text) : Text :=
  let overlay := "overlay".toList
  let options := "defaults,lowerdir=/".toList ++ dir ++ ",upperdir=/overlay/".toList ++ dir ++
    "/upper,workdir=/overlay/".toList ++ dir ++
    "/work,x-systemd.requires-mounts-for=/overlay".toList
  echoWords [overlay, '/' :: dir, overlay, options, ['0'], ['2']]

def overlayLines : List Text := [overlayLine "var".toList, overlayLine "etc".toList]

def etcFstabPath : Path := ["etc".toList, "fstab".toList]

def etcVeritytabPath : Path := ["etc".toList, "veritytab".toList]

def overlayPath : Path := ["overlay".toList]

/-- The lines for the root, before the tables are written. -/
def Work.rootLines (w : Work α) (e : Entry) (a : Attributes) : Except (Stop α) (Work α) :=
  if a.verity then .ok { w with fstab := w.fstab ++ overlayLines }
  else
    match w.dump, w.pass with
    | none, _ => .error (.unset "dump".toList, w)
    | _, none => .error (.unset "pass".toList, w)
    | some dump, some pass =>
      .ok { w with
        fstab := w.fstab ++
          [echoWords [e.source, e.target, e.fs, e.finalOptions a, dump, pass]]
        tree := remove w.tree overlayPath }

/-- `column -t "$fstab" > "$rootfs_work/etc/fstab"`, and the same for the veritytab. -/
def Work.writeTables (s : Setup) (w : Work α) (e : Entry) : Except (Stop α) (Work α) :=
  match follow w.tree etcFstabPath, follow w.tree etcVeritytabPath with
  | some p, some q =>
    if s.runs .column e then
      .ok { w with
        etcFstab := some (columns w.fstab)
        tree := write (write w.tree p (.table (columns w.fstab))) q (.table (columns w.veritytab)) }
    else .error (.failed .column, w)
  | _, _ => .error (.failed .column, w)

/-- `if [[ "$depth" = 0 ]]`. -/
def Work.root (s : Setup) (w : Work α) (e : Entry) (a : Attributes) : Except (Stop α) (Work α) :=
  if e.depth = 0 then do
    let w ← w.rootLines e a
    w.writeTables s e
  else .ok w

/-- The file systems that are filled from a directory. -/
def isFilled (fs : Text) : Bool := fs = "ext4".toList ∨ fs = "vfat".toList

/-- `case "$fs" in`: the directory is copied into the file, removed and made again. -/
def Work.mkfs (s : Setup) (w : Work α) (e : Entry) (file : PartFile) : Except (Stop α) (Work α) :=
  if isFilled e.fs then
    match e.path.bind (directory w.tree), e.path.bind (place w.tree) with
    | some d, some p =>
      if s.runs .mkfs e then
        .ok { w with
          content := Function.update w.content file (copy w.tree d)
          tree := clear w.tree p }
      else .error (.failed .mkfs, w)
    | _, _ => .error (.failed .mkfs, w)
  else if e.fs = "swap".toList then
    if s.runs .mkfs e then
      .ok { w with content := Function.update w.content file fun _ => none }
    else .error (.failed .mkfs, w)
  else .error (.unsupported e.fs, w)

/-- Files that are written into a partition. -/
def install (t : FileTree.Tree (Content α)) (ps : List Path) : FileTree.Tree (Content α) :=
  ps.foldl (fun t p => write t p .installed) t

/-- What `syslinux -d syslinux` writes. -/
def syslinuxPaths : List Path :=
  [["syslinux".toList, "ldlinux.sys".toList], ["syslinux".toList, "ldlinux.c32".toList]]

/-- `if [[ "$syslinux" = 1 ]]`. -/
def Work.syslinux (s : Setup) (w : Work α) (e : Entry) (a : Attributes) (file : PartFile) :
    Except (Stop α) (Work α) :=
  if a.syslinux then
    if s.runs .syslinux e then
      .ok { w with
        content := Function.update w.content file (install (w.content file) syslinuxPaths) }
    else .error (.failed .syslinux, w)
  else .ok w

/-- `pass=$(…)`. -/
def passOf (target : Text) : Text :=
  if target.head? ≠ some '/' then ['0'] else if target = ['/'] then ['1'] else ['2']

/-- `verity$(sed 's|/|_|' <<< "$target")`. -/
def verityName (target : Text) : Text :=
  "verity".toList ++ (target.takeWhile (· ≠ '/') ++
    match target.dropWhile (· ≠ '/') with
    | [] => []
    | _ :: rest => '_' :: rest)

/-- `dump`, `pass` and the lines of the tables. -/
def Work.report (s : Setup) (w : Work α) (e : Entry) (a : Attributes) (file : PartFile) :
    Except (Stop α) (Work α) :=
  let dump := ['0']
  let pass := passOf e.target
  let options := e.finalOptions a
  let w := { w with dump := some dump, pass := some pass }
  if a.verity then
    if s.runs .veritysetup e then
      let name := verityName e.target
      let w := { w with partitions := w.partitions ++ [(e, file)] }
      if e.depth ≠ 0 then
        .ok { w with
          veritytab := w.veritytab ++
            [echoWords [name, "UUID=".toList ++ s.uuidOf e,
              "UUID=".toList ++ s.verityUuidOf e, s.hashOf e]]
          fstab := w.fstab ++
            [echoWords ["/dev/mapper/".toList ++ name, e.target, e.fs, options, dump, pass]] }
      else .ok w
    else .error (.failed .veritysetup, w)
  else
    .ok { w with
      partitions := w.partitions ++ [(e, file)]
      fstab := w.fstab ++ [echoWords [e.source, e.target, e.fs, options, dump, pass]] }

/-- One turn of the loop. -/
def Work.step (s : Setup) (w : Work α) (e : Entry) : Except (Stop α) (Work α) :=
  let a := s.attributes e
  let file := w.newFile a
  if s.runs .truncate e then do
    let w ← w.root s e a
    let w ← w.mkfs s e file
    let w ← w.syslinux s e a file
    w.report s e a file
  else .error (.failed .truncate, w)

/-- The loop. -/
def loop (s : Setup) (w : Work α) : List Entry → Except (Stop α) (Work α)
  | [] => .ok w
  | e :: es => do
    let w ← w.step s e
    loop s w es

/-- Nothing is done yet. -/
def Work.start (tree : FileTree.Tree (Content α)) : Work α :=
  ⟨tree, [], [], none, none, none, fun _ _ => none, []⟩

/-- The loop over a description. -/
def partitionLoop (s : Setup) (tree : FileTree.Tree (Content α)) (text : Text) :
    Except (Stop α) (Work α) :=
  loop s (.start tree) (sortEntries s.collate (entries text))

/-! ## The boot files -/

/-- `uefi_arch`. -/
def uefiArch (arch : Text) : Text :=
  if arch = "amd64".toList then "X64".toList
  else if arch = "arm64".toList then "AA64".toList
  else []

/-- What is copied to `$uefi_partition` after the loop. -/
def bootPaths (s : Setup) : List Path :=
  ["EFI".toList, "BOOT".toList, "BOOT".toList ++ uefiArch s.arch ++ ".EFI".toList] ::
    if s.hasSyslinux then
      [["syslinux".toList, "syslinux.cfg".toList],
        ["legacy".toList, s.kernelVersion, "initrd.img-".toList ++ s.kernelVersion]]
    else []

/-- The boot files come into the one file. -/
def Work.boot (s : Setup) (w : Work α) : Work α :=
  { w with content := Function.update w.content .uefi (install (w.content .uefi) (bootPaths s)) }

/-- The files of the partitions, when `makepart` is done. -/
def makepart (s : Setup) (tree : FileTree.Tree (Content α)) (text : Text) :
    Except (Stop α) (Work α) := do
  let w ← partitionLoop s tree text
  .ok (w.boot s)

/-- A run in which every program succeeds. -/
def plainSetup : Setup :=
  { arch := "amd64".toList
    hasSyslinux := true
    kernelVersion := "5.10.0".toList
    collate := fun a b => a ≤ b
    uuidOf := fun _ => []
    verityUuidOf := fun _ => []
    hashOf := fun _ => []
    runs := fun _ _ => true }

/-! ## The order of the entries -/

theorem mem_entries {text : Text} {e : Entry} (h : e ∈ entries text) :
    ∃ line, e = readEntry line := by
  obtain ⟨line, -, rfl⟩ := List.mem_map.1 h
  exact ⟨line, rfl⟩

theorem perm_sortEntries (collate : Text → Text → Bool) (es : List Entry) :
    (sortEntries collate es).Perm es :=
  List.perm_insertionSort _ _

theorem pairwise_orderedInsert {r : Entry → Entry → Prop} [DecidableRel r]
    (hr : ∀ e e', r e e' → e'.depth ≤ e.depth) (hnr : ∀ e e', ¬ r e e' → e.depth ≤ e'.depth)
    {es : List Entry} (e : Entry) (h : es.Pairwise fun e e' => e'.depth ≤ e.depth) :
    (es.orderedInsert r e).Pairwise fun e e' => e'.depth ≤ e.depth := by
  induction es with
  | nil => exact List.pairwise_singleton _ e
  | cons x xs ih =>
    rw [List.pairwise_cons] at h
    rw [List.orderedInsert_cons]
    split
    · next hex =>
      have hle := hr e x hex
      refine List.Pairwise.cons ?_ (List.Pairwise.cons h.1 h.2)
      intro y hy
      rcases List.mem_cons.1 hy with rfl | hxs
      · exact hle
      · exact (h.1 y hxs).trans hle
    · next hex =>
      refine List.Pairwise.cons ?_ (ih h.2)
      intro y hy
      rcases (List.mem_orderedInsert r).1 hy with rfl | hxs
      · exact hnr y x hex
      · exact h.1 y hxs

/-- **Depth.** No entry is taken before a deeper one, whatever `sort` does with the others. -/
theorem pairwise_sortEntries (collate : Text → Text → Bool) (es : List Entry) :
    (sortEntries collate es).Pairwise fun e e' => e'.depth ≤ e.depth := by
  unfold sortEntries
  induction es with
  | nil => exact List.Pairwise.nil
  | cons e es ih =>
    rw [List.insertionSort_cons]
    refine pairwise_orderedInsert ?_ ?_ e ih
    · intro x y hxy
      omega
    · intro x y hxy
      omega

/-! ## The parts of a turn -/

/-- What has been done when a run is over, or has stopped. -/
def after : Except (Stop α) (Work α) → Work α
  | .ok w => w
  | .error stop => stop.2

theorem bind_eq_ok {x : Except (Stop α) (Work α)} {f : Work α → Except (Stop α) (Work α)}
    {w : Work α} (h : x >>= f = .ok w) : ∃ w₁, x = .ok w₁ ∧ f w₁ = .ok w := by
  cases x with
  | ok w₁ => exact ⟨w₁, rfl, h⟩
  | error stop => cases h

theorem rootLines_error {w : Work α} {e : Entry} {a : Attributes} {stop : Stop α}
    (h : w.rootLines e a = .error stop) : stop.2 = w := by
  unfold Work.rootLines at h
  split at h
  · cases h
  · split at h
    · cases h
      rfl
    · cases h
      rfl
    · cases h

theorem rootLines_ok {w w' : Work α} {e : Entry} {a : Attributes}
    (h : w.rootLines e a = .ok w') :
    (a.verity = true ∧ w' = { w with fstab := w.fstab ++ overlayLines }) ∨
      (a.verity = false ∧ ∃ dump pass, w.dump = some dump ∧ w.pass = some pass ∧
        w' = { w with
          fstab := w.fstab ++
            [echoWords [e.source, e.target, e.fs, e.finalOptions a, dump, pass]]
          tree := remove w.tree overlayPath }) := by
  unfold Work.rootLines at h
  split at h
  · next hverity =>
    cases h
    exact Or.inl ⟨hverity, rfl⟩
  · next hverity =>
    split at h
    · cases h
    · cases h
    · next dump pass hdump hpass =>
      cases h
      exact Or.inr ⟨Bool.not_eq_true _ ▸ hverity, dump, pass, hdump, hpass, rfl⟩

theorem writeTables_error {s : Setup} {w : Work α} {e : Entry} {stop : Stop α}
    (h : w.writeTables s e = .error stop) : stop.2 = w := by
  unfold Work.writeTables at h
  split at h
  · split at h
    · cases h
    · cases h
      rfl
  · cases h
    rfl

theorem writeTables_ok {s : Setup} {w w' : Work α} {e : Entry} (h : w.writeTables s e = .ok w') :
    ∃ p q, follow w.tree etcFstabPath = some p ∧ follow w.tree etcVeritytabPath = some q ∧
      w' = { w with
        etcFstab := some (columns w.fstab)
        tree := write (write w.tree p (.table (columns w.fstab))) q
          (.table (columns w.veritytab)) } := by
  unfold Work.writeTables at h
  split at h
  · next p q hp hq =>
    split at h
    · cases h
      exact ⟨p, q, hp, hq, rfl⟩
    · cases h
  · cases h

theorem mkfs_ok {s : Setup} {w w' : Work α} {e : Entry} {file : PartFile}
    (h : w.mkfs s e file = .ok w') :
    (isFilled e.fs = true ∧ ∃ d p, e.path.bind (directory w.tree) = some d ∧
      e.path.bind (place w.tree) = some p ∧
      w' = { w with
        content := Function.update w.content file (copy w.tree d)
        tree := clear w.tree p }) ∨
      (isFilled e.fs = false ∧
        w' = { w with content := Function.update w.content file fun _ => none }) := by
  unfold Work.mkfs at h
  split at h
  · next hfilled =>
    split at h
    · next d p hd hp =>
      split at h
      · cases h
        exact Or.inl ⟨hfilled, d, p, hd, hp, rfl⟩
      · cases h
    · cases h
  · next hfilled =>
    split at h
    · split at h
      · cases h
        exact Or.inr ⟨Bool.not_eq_true _ ▸ hfilled, rfl⟩
      · cases h
    · cases h

theorem syslinux_ok {s : Setup} {w w' : Work α} {e : Entry} {a : Attributes} {file : PartFile}
    (h : w.syslinux s e a file = .ok w') :
    w' = { w with
      content := Function.update w.content file
        (install (w.content file) (if a.syslinux then syslinuxPaths else [])) } := by
  unfold Work.syslinux at h
  split at h
  · next hsys =>
    split at h
    · cases h
      rw [if_pos hsys]
    · cases h
  · next hsys =>
    cases h
    rw [if_neg hsys, install, List.foldl_nil, Function.update_eq_self]

theorem report_ok {s : Setup} {w w' : Work α} {e : Entry} {a : Attributes} {file : PartFile}
    (h : w.report s e a file = .ok w') :
    w'.tree = w.tree ∧ w'.content = w.content ∧ w'.partitions = w.partitions ++ [(e, file)] := by
  unfold Work.report at h
  dsimp only at h
  split at h
  · split at h
    · split at h
      · cases h
        exact ⟨rfl, rfl, rfl⟩
      · cases h
        exact ⟨rfl, rfl, rfl⟩
    · cases h
  · cases h
    exact ⟨rfl, rfl, rfl⟩

theorem step_ok {s : Setup} {w w' : Work α} {e : Entry} (h : w.step s e = .ok w') :
    ∃ w₁ w₂ w₃, w.root s e (s.attributes e) = .ok w₁ ∧
      w₁.mkfs s e (w.newFile (s.attributes e)) = .ok w₂ ∧
      w₂.syslinux s e (s.attributes e) (w.newFile (s.attributes e)) = .ok w₃ ∧
      w₃.report s e (s.attributes e) (w.newFile (s.attributes e)) = .ok w' := by
  unfold Work.step at h
  dsimp only at h
  split at h
  · obtain ⟨w₁, h₁, h⟩ := bind_eq_ok h
    obtain ⟨w₂, h₂, h⟩ := bind_eq_ok h
    obtain ⟨w₃, h₃, h⟩ := bind_eq_ok h
    exact ⟨w₁, w₂, w₃, h₁, h₂, h₃, h⟩
  · cases h

/-- The file system of a partition takes no part in the tables. -/
theorem mkfs_tables (s : Setup) (w : Work α) (e : Entry) (file : PartFile) :
    (after (w.mkfs s e file)).fstab = w.fstab ∧ (after (w.mkfs s e file)).pass = w.pass ∧
      (after (w.mkfs s e file)).etcFstab = w.etcFstab := by
  unfold Work.mkfs
  split
  · split
    · split <;> exact ⟨rfl, rfl, rfl⟩
    · exact ⟨rfl, rfl, rfl⟩
  · split
    · split <;> exact ⟨rfl, rfl, rfl⟩
    · exact ⟨rfl, rfl, rfl⟩

theorem syslinux_tables (s : Setup) (w : Work α) (e : Entry) (a : Attributes) (file : PartFile) :
    (after (w.syslinux s e a file)).fstab = w.fstab ∧
      (after (w.syslinux s e a file)).pass = w.pass ∧
      (after (w.syslinux s e a file)).etcFstab = w.etcFstab := by
  unfold Work.syslinux
  split
  · split <;> exact ⟨rfl, rfl, rfl⟩
  · exact ⟨rfl, rfl, rfl⟩

/-- The lines of an entry end in its own pass, which is set now. -/
theorem report_tables (s : Setup) (w : Work α) (e : Entry) (a : Attributes) (file : PartFile) :
    (after (w.report s e a file)).pass = some (passOf e.target) ∧
      (after (w.report s e a file)).etcFstab = w.etcFstab ∧
      ∃ ls, (after (w.report s e a file)).fstab = w.fstab ++ ls ∧
        ∀ l ∈ ls, ∃ ws, l = echoWords (ws ++ [passOf e.target]) := by
  unfold Work.report
  dsimp only
  split
  · split
    · split
      · refine ⟨rfl, rfl, _, rfl, ?_⟩
        intro l hl
        rw [List.mem_singleton.1 hl]
        exact ⟨[_, e.target, e.fs, e.finalOptions a, ['0']], rfl⟩
      · refine ⟨rfl, rfl, [], (List.append_nil _).symm, ?_⟩
        intro l hl
        cases hl
    · refine ⟨rfl, rfl, [], (List.append_nil _).symm, ?_⟩
      intro l hl
      cases hl
  · refine ⟨rfl, rfl, _, rfl, ?_⟩
    intro l hl
    rw [List.mem_singleton.1 hl]
    exact ⟨[e.source, e.target, e.fs, e.finalOptions a, ['0']], rfl⟩

/-! ## Invariants of the loop -/

theorem after_bind {P Q : Work α → Prop} {x : Except (Stop α) (Work α)}
    {f : Work α → Except (Stop α) (Work α)} (hQ : ∀ w, Q w → P w) (hx : Q (after x))
    (hf : ∀ w, Q w → P (after (f w))) : P (after (x >>= f)) := by
  cases x with
  | ok w => exact hf w hx
  | error stop => exact hQ _ hx

/-- **Turn.** What the part for the root establishes, if it does not stop, the other parts
preserve. -/
theorem after_step {P Q : Work α → Prop} {s : Setup} {e : Entry} {w : Work α} (hw : P w)
    (hQ : ∀ w, Q w → P w)
    (hroot : ∀ stop, w.root s e (s.attributes e) = .error stop → P stop.2)
    (hrootOk : ∀ w', w.root s e (s.attributes e) = .ok w' → Q w')
    (hmkfs : ∀ w file, Q w → Q (after (w.mkfs s e file)))
    (hsyslinux : ∀ w file, Q w → Q (after (w.syslinux s e (s.attributes e) file)))
    (hreport : ∀ w file, Q w → P (after (w.report s e (s.attributes e) file))) :
    P (after (w.step s e)) := by
  unfold Work.step
  dsimp only
  split
  · cases hx : w.root s e (s.attributes e) with
    | error stop => exact hroot stop hx
    | ok w₁ =>
      show P (after (w₁.mkfs s e _ >>= _))
      refine after_bind (P := P) (Q := Q) hQ (hmkfs w₁ _ (hrootOk w₁ hx)) ?_
      intro w₂ h₂
      refine after_bind (P := P) (Q := Q) hQ (hsyslinux w₂ _ h₂) ?_
      intro w₃ h₃
      exact hreport w₃ _ h₃
  · exact hw

/-- **Loop.** What every turn preserves, the loop preserves. -/
theorem after_loop {P : Work α → Prop} {s : Setup} {es : List Entry}
    (hstep : ∀ e ∈ es, ∀ w, P w → P (after (w.step s e))) {w : Work α} (hw : P w) :
    P (after (loop s w es)) := by
  induction es generalizing w with
  | nil => exact hw
  | cons e es ih =>
    rw [List.forall_mem_cons] at hstep
    exact after_bind (fun _ h => h) (hstep.1 w hw) fun w' hw' => ih hstep.2 hw'

end GardenBuild
