import GardenLinux.Build.Makepart

/-!
# The files of the partitions

Every file of the root file system belongs to the entry whose target is its longest prefix.  The
deepest entries come first, and what was copied is removed; so when the turn of an entry comes, its
directory holds what belongs to it.

There are files of which this is not true.  `makepart` writes its own tables into `/etc` of the
root, and its boot files into the partitions that are booted; it removes `/overlay` when the root is
outside verity.  All partitions of the type `uefi` share one file.  And where a link leads to
another directory, that directory is copied, but the link is removed.

What is proved here:

* `copied_step` — what one turn does to the tree and to the files of the partitions;
* `copied_loop` — after the loop every partition has what belongs to its entry;
* `oneImage` — each file is in exactly one image, unless `makepart` itself writes or removes it.
-/

namespace GardenBuild

open TextFilter FileTree

variable {α : Type}

/-! ## What belongs to an entry -/

def Entry.mountPath (e : Entry) : Path := components e.target

/-- The target of the entry is the longest prefix of the path. -/
structure Owns (es : List Entry) (e : Entry) (p : Path) : Prop where
  mem : e ∈ es
  filled : isFilled e.fs = true
  isPrefix : e.mountPath <+: p
  longest : ∀ e' ∈ es, isFilled e'.fs = true → e'.mountPath <+: p →
    e'.mountPath.length ≤ e.mountPath.length

/-- The files of a system: each has a mark of its own. -/
structure RootFs (α : Type) where
  node : FileTree.Tree (Content α)
  original : ∀ p c target, node p = some (.leaf c target) → ∃ a, c = .original a
  apart : ∀ p q a target target', node p = some (.leaf (.original a) target) →
    node q = some (.leaf (.original a) target') → p = q

/-- A file is in exactly one image: that of the entry it belongs to, at its path from there. -/
def OneImage (es : List Entry) (w : Work α) (p : Path) (a : α) (target : Option Text) : Prop :=
  ∃ e f r, Owns es e p ∧ p = e.mountPath ++ r ∧ (e, f) ∈ w.partitions ∧
    w.content f r = some (.leaf (.original a) target) ∧
    ∀ e' f' r' target', (e', f') ∈ w.partitions →
      w.content f' r' = some (.leaf (.original a) target') → e' = e ∧ f' = f ∧ r' = r

/-- Every file of the system is in exactly one image. -/
def FilesOnce (s : Setup) (t : RootFs α) (text : Text) : Prop :=
  ∀ w, makepart s t.node text = .ok w →
    ∀ p a target, t.node p = some (.leaf (.original a) target) →
      OneImage (entries text) w p a target

/-- The targets are absolute and normalised, apart from each other, and one is the root.  Entries of
swap may come with any target. -/
structure Described (es : List Entry) : Prop where
  normalised : ∀ e ∈ es, isFilled e.fs = true →
    (∀ c ∈ e.mountPath, isProper c = true) ∧ e.target = join e.mountPath
  distinct : ((es.filter fun e => isFilled e.fs).map Entry.target).Nodup
  root : ∃ e ∈ es, isFilled e.fs = true ∧ e.target = ['/']

/-! ## What `makepart` writes and removes -/

def Setup.isUefi (s : Setup) (e : Entry) : Bool := (s.attributes e).type = "uefi".toList

/-- The tables, and `/overlay` where an entry of the depth 0 is outside verity. -/
def Touched (s : Setup) (es : List Entry) (p : Path) : Prop :=
  p = etcFstabPath ∨ p = etcVeritytabPath ∨
    (overlayPath <+: p ∧ ∃ e ∈ es, e.depth = 0 ∧ (s.attributes e).verity = false)

/-- In the root, and in partitions with `syslinux`. -/
def Replaced (s : Setup) (es : List Entry) (e : Entry) (r : Path) : Prop :=
  (e.depth = 0 ∧ Touched s es r) ∨ ((s.attributes e).syslinux = true ∧ r ∈ syslinuxPaths)

/-- And in the one with the boot files. -/
def Written (s : Setup) (es : List Entry) (e : Entry) (r : Path) : Prop :=
  Replaced s es e r ∨ (s.isUefi e = true ∧ r ∈ bootPaths s)

/-- What the loop over the entries in their order relies on. -/
structure Ordered (s : Setup) (t : FileTree.Tree (Content α)) (es : List Entry) : Prop where
  sorted : es.Pairwise fun e e' => e'.depth ≤ e.depth
  distinct : es.Pairwise fun e e' => isFilled e.fs = true → isFilled e'.fs = true →
    e.mountPath ≠ e'.mountPath
  oneUefi : es.Pairwise fun e e' => s.isUefi e = true → s.isUefi e' = false
  path : ∀ e ∈ es, isFilled e.fs = true → e.path = some e.mountPath
  proper : ∀ e ∈ es, isFilled e.fs = true → ∀ c ∈ e.mountPath, isProper c = true
  depth : ∀ e ∈ es, isFilled e.fs = true → e.depth = e.mountPath.length
  links : ∀ e ∈ es, isFilled e.fs = true → NoLink t e.mountPath
  etcFstab : NoLink t etcFstabPath
  etcVeritytab : NoLink t etcVeritytabPath

/-! ## The part of the root -/

/-- Nothing comes into the tree but files that are no links, and what is safe stays. -/
structure Keeps (safe : Path → Prop) (w w' : Work α) : Prop where
  content : w'.content = w.content
  partitions : w'.partitions = w.partitions
  original : ∀ p a target, w'.tree p = some (.leaf (.original a) target) →
    w.tree p = some (.leaf (.original a) target)
  link : ∀ p c target, w'.tree p = some (.leaf c (some target)) →
    w.tree p = some (.leaf c (some target))
  kept : ∀ p a target, safe p → w.tree p = some (.leaf (.original a) target) →
    w'.tree p = some (.leaf (.original a) target)

theorem Keeps.refl (safe : Path → Prop) (w : Work α) : Keeps safe w w :=
  ⟨rfl, rfl, fun _ _ _ h => h, fun _ _ _ h => h, fun _ _ _ _ h => h⟩

theorem Keeps.trans {safe : Path → Prop} {w w' w'' : Work α} (h : Keeps safe w w')
    (h' : Keeps safe w' w'') : Keeps safe w w'' := by
  refine ⟨h'.content.trans h.content, h'.partitions.trans h.partitions, ?_, ?_, ?_⟩
  · intro p a target hp
    exact h.original p a target (h'.original p a target hp)
  · intro p c target hp
    exact h.link p c target (h'.link p c target hp)
  · intro p a target hs hp
    exact h'.kept p a target hs (h.kept p a target hs hp)

theorem keeps_rootLines {s : Setup} {es : List Entry} {w w' : Work α} {e : Entry} (he : e ∈ es)
    (hdepth : e.depth = 0) (h : w.rootLines e (s.attributes e) = .ok w') :
    Keeps (fun p => ¬ Touched s es p) w w' := by
  rcases rootLines_ok h with ⟨-, rfl⟩ | ⟨hverity, dump, pass, -, -, rfl⟩
  · exact ⟨rfl, rfl, fun _ _ _ h => h, fun _ _ _ h => h, fun _ _ _ _ h => h⟩
  · refine ⟨rfl, rfl, ?_, ?_, ?_⟩
    · intro p a target hp
      exact (remove_eq_leaf_iff.1 hp).1
    · intro p c target hp
      exact (remove_eq_leaf_iff.1 hp).1
    · intro p a target hs hp
      refine remove_eq_leaf_iff.2 ⟨hp, ?_⟩
      intro hbelow
      exact hs (Or.inr (Or.inr ⟨hbelow, e, he, hdepth, hverity⟩))

/-- A table replaces a file, and is no link. -/
theorem keeps_write (safe : Path → Prop) {w : Work α} {q : Path} (rows : List (List Text))
    (hq : ¬ safe q) : Keeps safe w { w with tree := write w.tree q (.table rows) } := by
  refine ⟨rfl, rfl, ?_, ?_, ?_⟩
  · intro p a target hp
    rcases write_eq_leaf_iff.1 hp with ⟨-, htable, -⟩ | ⟨-, hold⟩
    · cases htable
    · exact hold
  · intro p c target hp
    rcases write_eq_leaf_iff.1 hp with ⟨-, -, hnone⟩ | ⟨-, hold⟩
    · cases hnone
    · exact hold
  · intro p a target hs hp
    refine write_eq_leaf_iff.2 (Or.inr ⟨?_, hp⟩)
    rintro rfl
    exact hq hs

theorem proper_etcFstab : ∀ c ∈ etcFstabPath, isProper c = true := by decide

theorem proper_etcVeritytab : ∀ c ∈ etcVeritytabPath, isProper c = true := by decide

theorem keeps_writeTables {s : Setup} {es : List Entry} {w w' : Work α} {e : Entry}
    (hfstab : NoLink w.tree etcFstabPath) (hveritytab : NoLink w.tree etcVeritytabPath)
    (h : w.writeTables s e = .ok w') : Keeps (fun p => ¬ Touched s es p) w w' := by
  obtain ⟨p, q, hp, hq, rfl⟩ := writeTables_ok h
  have hp' := follow_eq hfstab proper_etcFstab hp
  have hq' := follow_eq hveritytab proper_etcVeritytab hq
  subst hp' hq'
  have hfirst : Keeps (fun p => ¬ Touched s es p) w
      { w with tree := write w.tree etcFstabPath (.table (columns w.fstab)) } :=
    keeps_write _ _ fun hn => hn (Or.inl rfl)
  have htables := hfirst.trans
    (keeps_write (q := etcVeritytabPath) _ (columns w.veritytab)
      fun hn => hn (Or.inr (Or.inl rfl)))
  exact ⟨rfl, rfl, htables.original, htables.link, htables.kept⟩

theorem keeps_root {s : Setup} {es : List Entry} {w w' : Work α} {e : Entry} (he : e ∈ es)
    (hfstab : NoLink w.tree etcFstabPath) (hveritytab : NoLink w.tree etcVeritytabPath)
    (h : w.root s e (s.attributes e) = .ok w') :
    Keeps (fun p => ¬ Touched s es p ∨ e.depth ≠ 0) w w' := by
  unfold Work.root at h
  split at h
  · next hdepth =>
    obtain ⟨w₁, h₁, h⟩ := bind_eq_ok h
    have hlines := keeps_rootLines he hdepth h₁
    have htables : Keeps (fun p => ¬ Touched s es p) w₁ w' :=
      keeps_writeTables (hfstab.mono fun p c target => hlines.link p c target)
        (hveritytab.mono fun p c target => hlines.link p c target) h
    have hkeeps := hlines.trans htables
    refine ⟨hkeeps.content, hkeeps.partitions, hkeeps.original, hkeeps.link, ?_⟩
    intro p a target hs
    exact hkeeps.kept p a target (hs.resolve_right (not_not.2 hdepth))
  · cases h
    exact Keeps.refl _ w

/-! ## The file of a partition -/

theorem install_eq_iff {t : FileTree.Tree (Content α)} {ps : List Path} {p : Path} {a : α}
    {target : Option Text} :
    install t ps p = some (.leaf (.original a) target) ↔
      t p = some (.leaf (.original a) target) ∧ p ∉ ps := by
  induction ps generalizing t with
  | nil => simp [install]
  | cons q qs ih =>
    show install (write t q .installed) qs p = _ ↔ _
    rw [ih, write_eq_leaf_iff, List.mem_cons, not_or]
    constructor
    · rintro ⟨⟨-, hfile, -⟩ | ⟨hne, ht⟩, hqs⟩
      · cases hfile
      · exact ⟨ht, hne, hqs⟩
    · rintro ⟨ht, hne, hqs⟩
      exact ⟨Or.inr ⟨hne, ht⟩, hqs⟩

/-- What the file of a partition holds: what belongs to its entry. -/
structure Holds (s : Setup) (es : List Entry) (t : FileTree.Tree (Content α)) (e : Entry)
    (image : FileTree.Tree (Content α)) : Prop where
  only : ∀ r a target, image r = some (.leaf (.original a) target) →
    t (e.mountPath ++ r) = some (.leaf (.original a) target) ∧ Owns es e (e.mountPath ++ r)
  all : ∀ r a target, t (e.mountPath ++ r) = some (.leaf (.original a) target) →
    Owns es e (e.mountPath ++ r) → ¬ Replaced s es e r →
    image r = some (.leaf (.original a) target)

/-- The loop after the turns of some entries. -/
structure Copied (s : Setup) (es : List Entry) (t : FileTree.Tree (Content α)) (done : List Entry)
    (w : Work α) : Prop where
  partitions : w.partitions.map Prod.fst = done
  original : ∀ p a target, w.tree p = some (.leaf (.original a) target) →
    t p = some (.leaf (.original a) target)
  link : ∀ p c target, w.tree p = some (.leaf c (some target)) →
    t p = some (.leaf c (some target))
  kept : ∀ p a target, t p = some (.leaf (.original a) target) →
    (∀ d ∈ done, isFilled d.fs = true → ¬ d.mountPath <+: p) →
    (¬ Touched s es p ∨ ∀ d ∈ done, d.depth ≠ 0) →
    w.tree p = some (.leaf (.original a) target)
  gone : ∀ d ∈ done, isFilled d.fs = true → ∀ p a target, d.mountPath <+: p →
    w.tree p ≠ some (.leaf (.original a) target)
  images : ∀ e f, (e, f) ∈ w.partitions → Holds s es t e (w.content f)
  temps : ∀ e n, (e, PartFile.temp n) ∈ w.partitions → n < w.partitions.length
  uefi : ∀ e, (e, PartFile.uefi) ∈ w.partitions → s.isUefi e = true
  single : ∀ e f f', isFilled e.fs = true → (e, f) ∈ w.partitions → (e, f') ∈ w.partitions →
    f = f'

theorem Copied.start (s : Setup) (es : List Entry) (t : FileTree.Tree (Content α)) :
    Copied s es t [] (Work.start t) := by
  refine ⟨rfl, fun _ _ _ h => h, fun _ _ _ h => h, fun _ _ _ h _ _ => h, ?_, ?_, ?_, ?_, ?_⟩
  · intro d hd
    cases hd
  · intro e f h
    cases h
  · intro e n h
    cases h
  · intro e h
    cases h
  · intro e f f' _ h
    cases h

section Turn

variable {s : Setup} {t : FileTree.Tree (Content α)} {done todo : List Entry} {e : Entry}
  {w : Work α}

/-- What is deeper than the entry has had its turn. -/
theorem mem_done_of_deeper (ho : Ordered s t (done ++ e :: todo)) {e' : Entry}
    (he' : e' ∈ done ++ e :: todo) (hdeep : e.depth < e'.depth) : e' ∈ done := by
  obtain ⟨-, htail, -⟩ := List.pairwise_append.1 ho.sorted
  rcases List.mem_append.1 he' with hdone | hrest
  · exact hdone
  · exfalso
    rcases List.mem_cons.1 hrest with rfl | htodo
    · omega
    · have hle := (List.pairwise_cons.1 htail).1 e' htodo
      omega

theorem depth_le_of_done (ho : Ordered s t (done ++ e :: todo)) {d : Entry} (hd : d ∈ done) :
    e.depth ≤ d.depth := by
  obtain ⟨-, -, hcross⟩ := List.pairwise_append.1 ho.sorted
  exact hcross d hd e List.mem_cons_self

/-- A file that is still in the directory of the entry belongs to it. -/
theorem owns_of_left (ho : Ordered s t (done ++ e :: todo))
    (hc : Copied s (done ++ e :: todo) t done w) (hfilled : isFilled e.fs = true) {r : Path} {a : α}
    {target : Option Text} (h : w.tree (e.mountPath ++ r) = some (.leaf (.original a) target)) :
    Owns (done ++ e :: todo) e (e.mountPath ++ r) := by
  have he : e ∈ done ++ e :: todo := List.mem_append_right _ List.mem_cons_self
  refine ⟨he, hfilled, List.prefix_append _ _, ?_⟩
  intro e' he' hfilled' hbelow
  by_contra hlong
  rw [← ho.depth e he hfilled, ← ho.depth e' he' hfilled'] at hlong
  have hdone := mem_done_of_deeper ho he' (not_le.1 hlong)
  exact hc.gone e' hdone hfilled' _ a target hbelow h

/-- A file that belongs to the entry is still there. -/
theorem uncovered_of_owns (ho : Ordered s t (done ++ e :: todo)) {p : Path}
    (h : Owns (done ++ e :: todo) e p) :
    ∀ d ∈ done, isFilled d.fs = true → ¬ d.mountPath <+: p := by
  intro d hd hfilled hbelow
  have hmem : d ∈ done ++ e :: todo := List.mem_append_left _ hd
  have hshort := h.longest d hmem hfilled hbelow
  have hdeep := depth_le_of_done ho hd
  rw [ho.depth e h.mem h.filled, ho.depth d hmem hfilled] at hdeep
  have heq : d.mountPath = e.mountPath :=
    (List.prefix_of_prefix_length_le hbelow h.isPrefix hshort).eq_of_length
      (le_antisymm hshort hdeep)
  obtain ⟨-, -, hcross⟩ := List.pairwise_append.1 ho.distinct
  exact hcross d hd e List.mem_cons_self hfilled h.filled heq

/-- The file is a new one. -/
theorem newFile_notMem (ho : Ordered s t (done ++ e :: todo))
    (hc : Copied s (done ++ e :: todo) t done w) (d : Entry) :
    (d, w.newFile (s.attributes e)) ∉ w.partitions := by
  intro hmem
  unfold Work.newFile at hmem
  split at hmem
  · next huefi =>
    have hd : d ∈ done := by
      rw [← hc.partitions]
      exact List.mem_map.2 ⟨_, hmem, rfl⟩
    obtain ⟨-, -, hcross⟩ := List.pairwise_append.1 ho.oneUefi
    have hno := hcross d hd e List.mem_cons_self (hc.uefi d hmem)
    simp only [Setup.isUefi, decide_eq_false_iff_not] at hno
    exact hno huefi
  · exact absurd (hc.temps d _ hmem) (lt_irrefl _)

/-- What the turn of an entry leaves in the tree and in its file. -/
structure Turned (s : Setup) (es : List Entry) (t : FileTree.Tree (Content α)) (e : Entry)
    (w w' : Work α) : Prop where
  partitions : w'.partitions = w.partitions ++ [(e, w.newFile (s.attributes e))]
  others : ∀ f, f ≠ w.newFile (s.attributes e) → w'.content f = w.content f
  original : ∀ p a target, w'.tree p = some (.leaf (.original a) target) →
    w.tree p = some (.leaf (.original a) target) ∧
      (isFilled e.fs = true → ¬ e.mountPath <+: p)
  link : ∀ p c target, w'.tree p = some (.leaf c (some target)) →
    w.tree p = some (.leaf c (some target))
  kept : ∀ p a target, (¬ Touched s es p ∨ e.depth ≠ 0) →
    (isFilled e.fs = true → ¬ e.mountPath <+: p) →
    w.tree p = some (.leaf (.original a) target) → w'.tree p = some (.leaf (.original a) target)
  image : ∀ r a target,
    w'.content (w.newFile (s.attributes e)) r = some (.leaf (.original a) target) →
      isFilled e.fs = true ∧ w.tree (e.mountPath ++ r) = some (.leaf (.original a) target)
  copied : ∀ r a target, isFilled e.fs = true → (¬ Touched s es (e.mountPath ++ r) ∨ e.depth ≠ 0) →
    ((s.attributes e).syslinux = true → r ∉ syslinuxPaths) →
    w.tree (e.mountPath ++ r) = some (.leaf (.original a) target) →
    w'.content (w.newFile (s.attributes e)) r = some (.leaf (.original a) target)

/-- Without links on the way, the directory of an entry is what its target says. -/
theorem mkfs_here {es : List Entry} (ho : Ordered s t es) (he : e ∈ es)
    {w' : Work α} {file : PartFile} (hlink : ∀ p c target, w.tree p = some (.leaf c (some target)) →
      t p = some (.leaf c (some target))) (h : w.mkfs s e file = .ok w') :
    (isFilled e.fs = true ∧ w' = { w with
        content := Function.update w.content file (copy w.tree e.mountPath)
        tree := clear w.tree e.mountPath }) ∨
      (isFilled e.fs = false ∧
        w' = { w with content := Function.update w.content file fun _ => none }) := by
  rcases mkfs_ok h with ⟨hfilled, d, p, hd, hp, rfl⟩ | hswap
  · left
    rw [ho.path e he hfilled, Option.bind_some] at hd hp
    have hno : NoLink w.tree e.mountPath := (ho.links e he hfilled).mono hlink
    have hproper := ho.proper e he hfilled
    rw [directory_eq hno hproper hd, place_eq hno hproper hp]
    exact ⟨hfilled, rfl⟩
  · exact Or.inr hswap

/-- Making a file system moves what is below the mount point of the entry into its file. -/
theorem mkfs_moves {es : List Entry} (ho : Ordered s t es) (he : e ∈ es)
    {w' : Work α} {file : PartFile} (hlink : ∀ p c target, w.tree p = some (.leaf c (some target)) →
      t p = some (.leaf c (some target))) (h : w.mkfs s e file = .ok w') :
    w'.partitions = w.partitions ∧ (∀ f, f ≠ file → w'.content f = w.content f) ∧
      (∀ p c target, w'.tree p = some (.leaf c target) ↔
        w.tree p = some (.leaf c target) ∧ (isFilled e.fs = true → ¬ e.mountPath <+: p)) ∧
      ∀ r c target, w'.content file r = some (.leaf c target) ↔
        isFilled e.fs = true ∧ w.tree (e.mountPath ++ r) = some (.leaf c target) := by
  rcases mkfs_here ho he hlink h with ⟨hfilled, rfl⟩ | ⟨hfilled, rfl⟩
  · refine ⟨rfl, fun f hf => Function.update_of_ne hf _ _, fun p c target => ?_, fun r c target => ?_⟩
    · simp only [clear_eq_leaf_iff, hfilled, forall_const]
    · simp only [Function.update_self, copy, hfilled, true_and]
  · refine ⟨rfl, fun f hf => Function.update_of_ne hf _ _, fun p c target => ?_, fun r c target => ?_⟩
    · simp [hfilled]
    · simp [hfilled]

theorem turned_of_step {es : List Entry} (ho : Ordered s t es) (he : e ∈ es)
    (hlink : ∀ p c target, w.tree p = some (.leaf c (some target)) →
      t p = some (.leaf c (some target))) {w' : Work α} (h : w.step s e = .ok w') :
    Turned s es t e w w' := by
  obtain ⟨w₁, w₂, w₃, h₁, h₂, h₃, h₄⟩ := step_ok h
  have hroot : Keeps (fun p => ¬ Touched s es p ∨ e.depth ≠ 0) w w₁ :=
    keeps_root he (ho.etcFstab.mono fun p c target => hlink p c target)
      (ho.etcVeritytab.mono fun p c target => hlink p c target) h₁
  have hlink₁ : ∀ p c target, w₁.tree p = some (.leaf c (some target)) →
      t p = some (.leaf c (some target)) :=
    fun p c target hp => hlink p c target (hroot.link p c target hp)
  obtain ⟨hmkfsParts, hothers, hmoved, himage⟩ := mkfs_moves ho he hlink₁ h₂
  obtain ⟨htree, hcontent, hparts⟩ := report_ok h₄
  have h₃' := syslinux_ok h₃
  subst h₃'
  dsimp only at htree hcontent hparts
  refine ⟨?_, ?_, ?_, ?_, ?_, ?_, ?_⟩
  · rw [hparts, hmkfsParts, hroot.partitions]
  · intro f hf
    rw [hcontent, Function.update_of_ne hf, hothers f hf, hroot.content]
  · intro p a target hp
    rw [htree, hmoved] at hp
    exact ⟨hroot.original p a target hp.1, hp.2⟩
  · intro p c target hp
    rw [htree, hmoved] at hp
    exact hroot.link p c target hp.1
  · intro p a target hs hout hp
    rw [htree, hmoved]
    exact ⟨hroot.kept p a target hs hp, hout⟩
  · intro r a target hr
    rw [hcontent, Function.update_self, install_eq_iff, himage] at hr
    exact ⟨hr.1.1, hroot.original _ a target hr.1.2⟩
  · intro r a target hfilled hs hsys hr
    rw [hcontent, Function.update_self, install_eq_iff, himage]
    refine ⟨⟨hfilled, hroot.kept _ a target hs hr⟩, ?_⟩
    split
    · next hon => exact hsys hon
    · exact List.not_mem_nil

/-- After its turn, the file of an entry holds what belongs to it. -/
theorem holds_of_turned (ho : Ordered s t (done ++ e :: todo))
    (hc : Copied s (done ++ e :: todo) t done w) {w' : Work α}
    (ht : Turned s (done ++ e :: todo) t e w w') :
    Holds s (done ++ e :: todo) t e (w'.content (w.newFile (s.attributes e))) := by
  have he : e ∈ done ++ e :: todo := List.mem_append_right _ List.mem_cons_self
  constructor
  · intro r a target hr
    obtain ⟨hfilled, hleft⟩ := ht.image r a target hr
    exact ⟨hc.original _ a target hleft, owns_of_left ho hc hfilled hleft⟩
  · intro r a target hr howns hnot
    have hsafe : ¬ Touched s (done ++ e :: todo) (e.mountPath ++ r) ∨ e.depth ≠ 0 := by
      by_cases hdepth : e.depth = 0
      · left
        intro htouched
        apply hnot
        left
        have hnil : e.mountPath = [] := by
          rw [← List.length_eq_zero_iff, ← ho.depth e he howns.filled, hdepth]
        rw [hnil, List.nil_append] at htouched
        exact ⟨hdepth, htouched⟩
      · exact Or.inr hdepth
    refine ht.copied r a target howns.filled hsafe ?_ ?_
    · intro hsys hpath
      exact hnot (Or.inr ⟨hsys, hpath⟩)
    · refine hc.kept _ a target hr (uncovered_of_owns ho howns) ?_
      refine hsafe.imp_right ?_
      intro hdepth d' hd' hzero
      have hle := depth_le_of_done ho hd'
      omega

/-- An entry that is filled had no turn before. -/
theorem notMem_partitions (ho : Ordered s t (done ++ e :: todo))
    (hc : Copied s (done ++ e :: todo) t done w) (hfilled : isFilled e.fs = true) (f : PartFile) :
    (e, f) ∉ w.partitions := by
  intro hf
  have hdone : e ∈ done := by
    rw [← hc.partitions]
    exact List.mem_map.2 ⟨_, hf, rfl⟩
  obtain ⟨-, -, hcross⟩ := List.pairwise_append.1 ho.distinct
  exact hcross e hdone e List.mem_cons_self hfilled hfilled rfl

/-- **Turn.** After the turn of an entry its file holds what belongs to it, and the rest of the tree
is as it was. -/
theorem copied_step (ho : Ordered s t (done ++ e :: todo))
    (hc : Copied s (done ++ e :: todo) t done w) {w' : Work α} (h : w.step s e = .ok w') :
    Copied s (done ++ e :: todo) t (done ++ [e]) w' := by
  have he : e ∈ done ++ e :: todo := List.mem_append_right _ List.mem_cons_self
  have ht := turned_of_step ho he hc.link h
  have hnew := newFile_notMem ho hc
  refine ⟨?_, ?_, ?_, ?_, ?_, ?_, ?_, ?_, ?_⟩
  · rw [ht.partitions, List.map_append, hc.partitions]
    rfl
  · intro p a target hp
    exact hc.original p a target (ht.original p a target hp).1
  · intro p c target hp
    exact hc.link p c target (ht.link p c target hp)
  · intro p a target hp hout hs
    have houtDone : ∀ d ∈ done, isFilled d.fs = true → ¬ d.mountPath <+: p :=
      fun d hd => hout d (List.mem_append_left _ hd)
    have hdepth : ¬ Touched s (done ++ e :: todo) p ∨ e.depth ≠ 0 :=
      hs.imp_right fun hall => hall e (List.mem_append_right _ List.mem_cons_self)
    refine ht.kept p a target hdepth (hout e (List.mem_append_right _ List.mem_cons_self)) ?_
    exact hc.kept p a target hp houtDone
      (hs.imp_right fun hall d hd => hall d (List.mem_append_left _ hd))
  · intro d hd hfilled p a target hbelow hp
    obtain ⟨hold, hout⟩ := ht.original p a target hp
    rcases List.mem_append.1 hd with hdone | hlast
    · exact hc.gone d hdone hfilled p a target hbelow hold
    · rw [List.mem_singleton.1 hlast] at hfilled hbelow
      exact hout hfilled hbelow
  · intro d f hmem
    rw [ht.partitions] at hmem
    rcases List.mem_append.1 hmem with hold | hlast
    · rw [ht.others f (fun heq => hnew d (heq ▸ hold))]
      exact hc.images d f hold
    · obtain ⟨rfl, rfl⟩ := Prod.mk.inj (List.mem_singleton.1 hlast)
      exact holds_of_turned ho hc ht
  · intro d n hmem
    rw [ht.partitions] at hmem ⊢
    rw [List.length_append, List.length_singleton]
    rcases List.mem_append.1 hmem with hold | hlast
    · have hlt := hc.temps d n hold
      omega
    · have hfile := (Prod.mk.inj (List.mem_singleton.1 hlast)).2
      unfold Work.newFile at hfile
      split at hfile
      · cases hfile
      · cases hfile
        omega
  · intro d hmem
    rw [ht.partitions] at hmem
    rcases List.mem_append.1 hmem with hold | hlast
    · exact hc.uefi d hold
    · obtain ⟨rfl, hfile⟩ := Prod.mk.inj (List.mem_singleton.1 hlast)
      unfold Work.newFile at hfile
      split at hfile
      · next huefi => exact decide_eq_true huefi
      · cases hfile
  · intro d f f' hfilled hmem hmem'
    rw [ht.partitions] at hmem hmem'
    rcases List.mem_append.1 hmem with hold | hlast
    · rcases List.mem_append.1 hmem' with hold' | hlast'
      · exact hc.single d f f' hfilled hold hold'
      · obtain ⟨rfl, -⟩ := Prod.mk.inj (List.mem_singleton.1 hlast')
        exact absurd hold (notMem_partitions ho hc hfilled f)
    · obtain ⟨rfl, rfl⟩ := Prod.mk.inj (List.mem_singleton.1 hlast)
      rcases List.mem_append.1 hmem' with hold' | hlast'
      · exact absurd hold' (notMem_partitions ho hc hfilled f')
      · exact (Prod.mk.inj (List.mem_singleton.1 hlast')).2.symm

end Turn

/-- **Loop.** -/
theorem copied_loop {s : Setup} {t : FileTree.Tree (Content α)} (done : List Entry)
    {todo : List Entry} {w w' : Work α}
    (ho : Ordered s t (done ++ todo)) (hc : Copied s (done ++ todo) t done w)
    (h : loop s w todo = .ok w') : Copied s (done ++ todo) t (done ++ todo) w' := by
  induction todo generalizing done w with
  | nil =>
    rw [List.append_nil] at hc ⊢
    cases h
    exact hc
  | cons e todo ih =>
    obtain ⟨w₁, h₁, h⟩ := bind_eq_ok h
    have hc₁ := copied_step ho hc h₁
    have hsplit : done ++ e :: todo = (done ++ [e]) ++ todo := by
      rw [List.append_assoc, List.singleton_append]
    rw [hsplit] at ho hc₁ ⊢
    exact ih (done ++ [e]) ho hc₁ h

/-! ## Targets -/

theorem pathDepth_join {p : Path} (hp : ∀ c ∈ p, isProper c = true) :
    pathDepth (join p) = p.length := by
  by_cases hne : p = []
  · subst hne
    rfl
  · obtain ⟨x, y, xs, ys, hfirst, hlast, hx, hy⟩ := inner_join hp hne
    have hinner : ((join p).dropWhile (· = '/')).rdropWhile (· = '/') = ['/'].intercalate p := by
      rw [join, List.dropWhile_cons_of_pos (by simp), hfirst,
        List.dropWhile_cons_of_neg (by simpa using hx), ← hfirst, hlast,
        List.rdropWhile_concat_neg _ _ _ (by simpa using hy)]
    unfold pathDepth
    dsimp only
    rw [hinner, if_neg (by rw [hfirst]; exact List.cons_ne_nil _ _), splitOn_join hp hne]

/-- At most one entry has the type `uefi`. -/
def OneUefi (s : Setup) (es : List Entry) : Prop := (es.filter s.isUefi).length ≤ 1

/-- No links lead to the targets of the entries, or to the tables. -/
structure Linkless (es : List Entry) (t : FileTree.Tree (Content α)) : Prop where
  targets : ∀ e ∈ es, isFilled e.fs = true → NoLink t e.mountPath
  etcFstab : NoLink t etcFstabPath
  etcVeritytab : NoLink t etcVeritytabPath

theorem ordered_sortEntries {s : Setup} {t : FileTree.Tree (Content α)} {text : Text}
    (hd : Described (entries text)) (huefi : OneUefi s (entries text))
    (hlinks : Linkless (entries text) t) :
    Ordered s t (sortEntries s.collate (entries text)) := by
  have hperm := perm_sortEntries s.collate (entries text)
  have hmem : ∀ {e}, e ∈ sortEntries s.collate (entries text) → e ∈ entries text :=
    hperm.mem_iff.1
  refine ⟨pairwise_sortEntries _ _, ?_, ?_, ?_, ?_, ?_, ?_, hlinks.etcFstab, hlinks.etcVeritytab⟩
  · rw [hperm.pairwise_iff (fun h hy hx heq => h hx hy heq.symm)]
    have hdistinct := hd.distinct
    rw [List.Nodup, List.pairwise_map, List.pairwise_filter] at hdistinct
    refine hdistinct.imp_of_mem ?_
    intro e e' he he' hne hfilled hfilled' hpath
    apply hne hfilled hfilled'
    rw [(hd.normalised e he hfilled).2, (hd.normalised e' he' hfilled').2, hpath]
  · rw [hperm.pairwise_iff (fun h hy => by
      by_contra hx
      rw [Bool.not_eq_false] at hx
      rw [h hx] at hy
      cases hy)]
    have hfalse : ((entries text).filter s.isUefi).Pairwise fun _ _ => False := by
      unfold OneUefi at huefi
      rcases hcases : (entries text).filter s.isUefi with _ | ⟨e, _ | ⟨e', es⟩⟩
      · exact List.Pairwise.nil
      · exact List.pairwise_singleton _ e
      · rw [hcases] at huefi
        simp at huefi
    rw [List.pairwise_filter] at hfalse
    refine hfalse.imp ?_
    intro e e' h he
    by_contra he'
    exact h he (Bool.not_eq_false _ ▸ he')
  · intro e he hfilled
    have htarget := (hd.normalised e (hmem he) hfilled).2
    unfold Entry.path
    rw [if_pos (Or.inr (by rw [htarget]; rfl))]
    rfl
  · intro e he hfilled
    exact (hd.normalised e (hmem he) hfilled).1
  · intro e he hfilled
    obtain ⟨hproper, htarget⟩ := hd.normalised e (hmem he) hfilled
    obtain ⟨line, hline⟩ := mem_entries (hmem he)
    have hdepth : e.depth = pathDepth e.target := by
      rw [hline]
      rfl
    rw [hdepth, htarget, pathDepth_join hproper]
  · intro e he
    exact hlinks.targets e (hmem he)

/-! ## The images -/

/-- An entry of the longest target is there: at least the root is one. -/
theorem exists_owner {es : List Entry} (hd : Described es) (p : Path) : ∃ e, Owns es e p := by
  obtain ⟨root, hroot, hfilled, htarget⟩ := hd.root
  have hempty : root.mountPath <+: p := by
    rw [Entry.mountPath, htarget]
    exact List.nil_prefix
  let covering := es.filter fun e => isFilled e.fs && decide (e.mountPath <+: p)
  have hcovering : ∀ e, e ∈ covering ↔ e ∈ es ∧ isFilled e.fs = true ∧ e.mountPath <+: p := by
    intro e
    simp [covering]
  have hne : covering.toFinset.Nonempty :=
    ⟨root, List.mem_toFinset.2 ((hcovering root).2 ⟨hroot, hfilled, hempty⟩)⟩
  obtain ⟨e, he, hmax⟩ := covering.toFinset.exists_max_image (fun e => e.mountPath.length) hne
  obtain ⟨hmem, hon, hbelow⟩ := (hcovering e).1 (List.mem_toFinset.1 he)
  refine ⟨e, hmem, hon, hbelow, ?_⟩
  intro e' he' hon' hbelow'
  exact hmax e' (List.mem_toFinset.2 ((hcovering e').2 ⟨he', hon', hbelow'⟩))

/-- Only one entry has it. -/
theorem Owns.unique {es : List Entry} (hd : Described es) {e e' : Entry} {p : Path}
    (h : Owns es e p) (h' : Owns es e' p) : e = e' := by
  have hle := h'.longest e h.mem h.filled h.isPrefix
  have hge := h.longest e' h'.mem h'.filled h'.isPrefix
  have hpath : e.mountPath = e'.mountPath :=
    (List.prefix_of_prefix_length_le h.isPrefix h'.isPrefix hle).eq_of_length (le_antisymm hle hge)
  refine List.inj_on_of_nodup_map hd.distinct ?_ ?_ ?_
  · exact List.mem_filter.2 ⟨h.mem, h.filled⟩
  · exact List.mem_filter.2 ⟨h'.mem, h'.filled⟩
  · rw [(hd.normalised e h.mem h.filled).2, (hd.normalised e' h'.mem h'.filled).2, hpath]

theorem Owns.perm {es es' : List Entry} {e : Entry} {p : Path} (hperm : es.Perm es')
    (h : Owns es e p) : Owns es' e p :=
  ⟨hperm.mem_iff.1 h.mem, h.filled, h.isPrefix, fun e' he' => h.longest e' (hperm.mem_iff.2 he')⟩

theorem Replaced.perm {s : Setup} {es es' : List Entry} {e : Entry} {r : Path}
    (hperm : es.Perm es') (h : Replaced s es e r) : Replaced s es' e r := by
  rcases h with ⟨hdepth, htable | htable | ⟨hover, d, hd, hzero⟩⟩ | hsys
  · exact Or.inl ⟨hdepth, Or.inl htable⟩
  · exact Or.inl ⟨hdepth, Or.inr (Or.inl htable)⟩
  · exact Or.inl ⟨hdepth, Or.inr (Or.inr ⟨hover, d, hperm.mem_iff.1 hd, hzero⟩)⟩
  · exact Or.inr hsys

theorem boot_content (s : Setup) (w : Work α) (f : PartFile) :
    (w.boot s).content f = install (w.content f) (if f = .uefi then bootPaths s else []) := by
  unfold Work.boot
  dsimp only
  split
  · next hf =>
    subst hf
    rw [Function.update_self]
  · next hf =>
    rw [Function.update_of_ne hf, install, List.foldl_nil]

/-- **One image.** Each file is in exactly one image, that of the entry whose target is its longest
prefix, at its path from there; unless it stands where `makepart` writes or removes files itself. -/
theorem oneImage (s : Setup) (t : RootFs α) (text : Text) (hd : Described (entries text))
    (huefi : OneUefi s (entries text)) (hlinks : Linkless (entries text) t.node) {w : Work α}
    (hrun : makepart s t.node text = .ok w) {p : Path} {a : α} {target : Option Text}
    (hfile : t.node p = some (.leaf (.original a) target)) :
    OneImage (entries text) w p a target ∨
      ∃ e r, Owns (entries text) e p ∧ p = e.mountPath ++ r ∧ Written s (entries text) e r := by
  obtain ⟨w₁, hloop, hboot⟩ := bind_eq_ok hrun
  cases hboot
  have hperm := perm_sortEntries s.collate (entries text)
  have ho := ordered_sortEntries hd huefi hlinks
  have hc : Copied s (sortEntries s.collate (entries text)) t.node
      (sortEntries s.collate (entries text)) w₁ :=
    copied_loop [] ho (Copied.start s _ t.node) hloop
  obtain ⟨e, howns⟩ := exists_owner hd p
  obtain ⟨r, rfl⟩ := howns.isPrefix
  by_cases hwritten : Written s (entries text) e r
  · exact Or.inr ⟨e, r, howns, rfl, hwritten⟩
  left
  have hdone : e ∈ w₁.partitions.map Prod.fst := by
    rw [hc.partitions]
    exact hperm.mem_iff.2 howns.mem
  obtain ⟨⟨e₀, f⟩, hmem, heq⟩ := List.mem_map.1 hdone
  dsimp only at heq
  subst heq
  refine ⟨e₀, f, r, howns, rfl, hmem, ?_, ?_⟩
  · have hnot : ¬ Replaced s (sortEntries s.collate (entries text)) e₀ r :=
      fun h => hwritten (Or.inl (h.perm hperm))
    rw [boot_content, install_eq_iff]
    refine ⟨(hc.images e₀ f hmem).all r a target hfile (howns.perm hperm.symm) hnot, ?_⟩
    split
    · next hf =>
      subst hf
      intro hpath
      exact hwritten (Or.inr ⟨hc.uefi e₀ hmem, hpath⟩)
    · exact List.not_mem_nil
  · intro e' f' r' target' hmem' h
    rw [boot_content, install_eq_iff] at h
    obtain ⟨hnode, howns'⟩ := (hc.images e' f' hmem').only r' a target' h.1
    have hpath := t.apart _ _ a target' target hnode hfile
    rw [hpath] at howns'
    have heq := (howns'.perm hperm).unique hd howns
    subst heq
    exact ⟨rfl, hc.single e' f' f howns.filled hmem' hmem, List.append_cancel_left hpath⟩

/-! ## Systems in which it fails -/

/-- A system of some directories and files, each marked with its own path. -/
def systemOf (dirs : List Path) (files : List (Path × Option Text)) : RootFs Path where
  node p :=
    if p ∈ dirs then some .dir
    else (files.lookup p).map fun target => .leaf (.original p) target
  original := by
    intro p c target h
    split at h
    · cases h
    · obtain ⟨_, -, heq⟩ := Option.map_eq_some_iff.1 h
      cases heq
      exact ⟨p, rfl⟩
  apart := by
    intro p q a target target' hp hq
    split at hp
    · cases hp
    · split at hq
      · cases hq
      · obtain ⟨_, -, heq⟩ := Option.map_eq_some_iff.1 hp
        obtain ⟨_, -, heq'⟩ := Option.map_eq_some_iff.1 hq
        cases heq
        cases heq'
        rfl

theorem systemOf_node {dirs : List Path} {files : List (Path × Option Text)} {p : Path}
    {target : Option Text} (hdirs : p ∉ dirs) (hfiles : files.lookup p = some target) :
    (systemOf dirs files).node p = some (.leaf (.original p) target) := by
  show (if p ∈ dirs then some Node.dir else _) = _
  rw [if_neg hdirs, hfiles, Option.map_some]

/-- The file of the path is at the path `r` of an image. -/
def isAt (w : Work Path) (p r : Path) : Bool :=
  w.partitions.any fun (_, f) =>
    match w.content f r with
    | some (.leaf (.original q) _) => q = p
    | _ => false

/-- Where the images have the file of the path, among the paths that it can have there. -/
def places (s : Setup) (t : RootFs Path) (text : Text) (p : Path) : Option (List Path) :=
  match makepart s t.node text with
  | .ok w => some (p.tails.filter (isAt w p))
  | .error _ => none

/-- A file that is in exactly one image has one place. -/
theorem FilesOnce.places {s : Setup} {t : RootFs Path} {text : Text} (h : FilesOnce s t text)
    {p : Path} {target : Option Text} (hfile : t.node p = some (.leaf (.original p) target))
    {found : List Path} (hfound : places s t text p = some found) :
    ∃ r, ∀ r', r' ∈ found ↔ r' = r := by
  unfold GardenBuild.places at hfound
  split at hfound
  · next w hrun =>
    obtain ⟨e, f, r, -, hpath, hmem, hin, honly⟩ := h w hrun p p target hfile
    refine ⟨r, ?_⟩
    intro r'
    rw [← Option.some.inj hfound, List.mem_filter, List.mem_tails]
    constructor
    · rintro ⟨-, hat⟩
      obtain ⟨⟨e', f'⟩, hmem', hcontent⟩ := List.any_eq_true.1 hat
      dsimp only at hcontent
      split at hcontent
      · next q target' hnode =>
        rw [of_decide_eq_true hcontent] at hnode
        exact (honly e' f' r' target' hmem' hnode).2.2
      · cases hcontent
    · rintro rfl
      refine ⟨⟨e.mountPath, hpath.symm⟩, List.any_eq_true.2 ⟨(e, f), hmem, ?_⟩⟩
      dsimp only
      rw [hin]
      exact decide_eq_true rfl
  · cases hfound

theorem not_filesOnce_of_lost {s : Setup} {t : RootFs Path} {text : Text} {p : Path}
    {target : Option Text} (hfile : t.node p = some (.leaf (.original p) target))
    (hfound : places s t text p = some []) : ¬ FilesOnce s t text := by
  intro h
  obtain ⟨r, hr⟩ := h.places hfile hfound
  exact absurd ((hr r).2 rfl) List.not_mem_nil

theorem not_filesOnce_of_twice {s : Setup} {t : RootFs Path} {text : Text} {p r r' : Path}
    {target : Option Text} (hfile : t.node p = some (.leaf (.original p) target))
    (hfound : places s t text p = some [r, r']) (hne : r ≠ r') : ¬ FilesOnce s t text := by
  intro h
  obtain ⟨x, hx⟩ := h.places hfile hfound
  exact hne (((hx r).1 (by simp)).trans ((hx r').1 (by simp)).symm)

/-- A root, the partition that is booted from, and something else. -/
def fstabWith (line : String) : Text :=
  ("LABEL=ROOT / ext4 rw\nLABEL=EFI /efi vfat umask=0077 type=uefi\n" ++ line ++ "\n").toList

def usrFstab : Text := fstabWith "LABEL=USR /usr ext4 ro"

def libFstab : Text := fstabWith "LABEL=LIB /lib ext4 ro"

def efiFstab : Text := fstabWith ""

def twoUefiFstab : Text := fstabWith "LABEL=USR /usr vfat umask=0077 type=uefi"

def pathOf (s : String) : Path := components s.toList

def directories : List Path :=
  ["", "boot", "efi", "efi/syslinux", "etc", "etc/kernel", "overlay", "proc", "usr", "usr/bin",
    "usr/lib", "usr/lib/systemd", "usr/lib/systemd/boot", "usr/lib/systemd/boot/efi"].map pathOf

def cfgFile : Path := pathOf "efi/syslinux/syslinux.cfg"

/-- What the boot files of `plainSetup` are made of. -/
def bootFiles : List Path :=
  cfgFile :: ["boot/vmlinuz-5.10.0", "etc/kernel/cmdline", "usr/bin/syslinux",
    "usr/lib/systemd/boot/efi/linuxx64.efi.stub"].map pathOf

def usrFile : Path := pathOf "usr/lib/x"

def overlayFile : Path := pathOf "overlay/x"

/-- A system with one more file. -/
def systemWith (p : Path) : RootFs Path :=
  systemOf directories ((p :: bootFiles).map fun q => (q, none))

/-- `/lib` is a link to `/usr/lib`. -/
def linkSystem : RootFs Path :=
  systemOf directories ((pathOf "lib", some "usr/lib".toList) ::
    (usrFile :: bootFiles).map fun q => (q, none))

theorem described_of {es : List Entry}
    (hnormal : (es.all fun e => isFilled e.fs → (e.mountPath.all isProper ∧
      e.target = join e.mountPath)) = true)
    (hdistinct : ((es.filter fun e => isFilled e.fs).map Entry.target).Nodup)
    (hroot : ∃ e ∈ es, isFilled e.fs = true ∧ e.target = ['/']) : Described es := by
  refine ⟨?_, hdistinct, hroot⟩
  intro e he hfilled
  have h := of_decide_eq_true (List.all_eq_true.1 hnormal e he) hfilled
  exact ⟨List.all_eq_true.1 h.1, h.2⟩

theorem noLink_systemWith (p q : Path) : NoLink (systemWith p).node q := by
  intro r _ a target h
  have hnode : (if r ∈ directories then some Node.dir
      else (List.lookup r ((p :: bootFiles).map fun q => (q, none))).map fun target =>
        .leaf (.original r) target) = some (.leaf a (some target)) := h
  split at hnode
  · cases hnode
  · obtain ⟨to', hlookup, heq⟩ := Option.map_eq_some_iff.1 hnode
    obtain ⟨before, after, hsplit, -⟩ := List.lookup_eq_some_iff.1 hlookup
    have hmem : (r, to') ∈ (p :: bootFiles).map fun q => (q, none) :=
      hsplit ▸ List.mem_append_right _ (List.mem_cons_self ..)
    obtain ⟨q, -, hfile⟩ := List.mem_map.1 hmem
    cases heq
    exact nomatch (Prod.ext_iff.1 hfile).2

/-- The file of `/usr` is in one image. -/
theorem oneImage_usr : ∃ w, makepart plainSetup (systemWith usrFile).node usrFstab = .ok w ∧
    (OneImage (entries usrFstab) w usrFile usrFile none ∨
      ∃ e r, Owns (entries usrFstab) e usrFile ∧ usrFile = e.mountPath ++ r ∧
        Written plainSetup (entries usrFstab) e r) := by
  have hok : (makepart plainSetup (systemWith usrFile).node usrFstab).isOk = true := by
    decide +kernel
  cases hrun : makepart plainSetup (systemWith usrFile).node usrFstab with
  | error stop =>
    rw [hrun] at hok
    cases hok
  | ok w =>
    refine ⟨w, rfl, oneImage plainSetup (systemWith usrFile) usrFstab ?_ ?_ ?_ hrun ?_⟩
    · exact described_of (by decide +kernel) (by decide +kernel) (by decide +kernel)
    · unfold OneUefi
      decide +kernel
    · exact ⟨fun e _ _ => noLink_systemWith _ _, noLink_systemWith _ _, noLink_systemWith _ _⟩
    · exact systemOf_node (by decide +kernel) (by simp)

/-- A file below `/overlay` is lost, the file `/etc/fstab` is replaced, and so is the configuration
of `syslinux`.  Of two partitions of the type `uefi` the second one takes the place of the first.
A file that a link leads to is copied twice. -/
theorem filesOnce_fails :
    (Described (entries usrFstab) ∧ ¬ FilesOnce plainSetup (systemWith overlayFile) usrFstab ∧
      ¬ FilesOnce plainSetup (systemWith etcFstabPath) usrFstab) ∧
    (Described (entries efiFstab) ∧ ¬ FilesOnce plainSetup (systemWith cfgFile) efiFstab) ∧
    (Described (entries twoUefiFstab) ∧
      ¬ FilesOnce plainSetup (systemWith usrFile) twoUefiFstab) ∧
    (Described (entries libFstab) ∧ ¬ FilesOnce plainSetup linkSystem libFstab) := by
  have hnode : ∀ p, p ∉ directories → (systemWith p).node p = some (.leaf (.original p) none) :=
    fun p hp => systemOf_node hp (by simp)
  have hlib : linkSystem.node usrFile = some (.leaf (.original usrFile) none) :=
    systemOf_node (by decide +kernel) (by decide +kernel)
  refine ⟨⟨?_, ?_, ?_⟩, ⟨?_, ?_⟩, ⟨?_, ?_⟩, ⟨?_, ?_⟩⟩
  · exact described_of (by decide +kernel) (by decide +kernel) (by decide +kernel)
  · exact not_filesOnce_of_lost (hnode overlayFile (by decide +kernel)) (by decide +kernel)
  · exact not_filesOnce_of_lost (hnode etcFstabPath (by decide +kernel)) (by decide +kernel)
  · exact described_of (by decide +kernel) (by decide +kernel) (by decide +kernel)
  · exact not_filesOnce_of_lost (hnode cfgFile (by decide +kernel)) (by decide +kernel)
  · exact described_of (by decide +kernel) (by decide +kernel) (by decide +kernel)
  · exact not_filesOnce_of_lost (hnode usrFile (by decide +kernel)) (by decide +kernel)
  · exact described_of (by decide +kernel) (by decide +kernel) (by decide +kernel)
  · have hplaces : places plainSetup linkSystem libFstab usrFile = some [usrFile, ["x".toList]] := by
      decide +kernel
    exact not_filesOnce_of_twice hlib hplaces (by decide +kernel)

end GardenBuild
