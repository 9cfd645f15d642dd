import GardenLinux.Lib.Bash

/-!
# Commands of the shell language

A command on a line of its own: a name and words between double quotes.

What is proved here:

* `scan_dquoted` — a word between double quotes is read as it stands, if nothing in it has a
  meaning there;
* `command_render` — a command is read as it was written.
-/

namespace Bash

/-- A word between double quotes. -/
def dquoted (v : List Char) : List Char := dquote :: (v ++ [dquote])

/-- What stands between double quotes as it is. -/
def isDquotedChar (c : Char) : Bool := c ≠ dquote && !isEscapable c

/-- The words of a line; nothing but blanks may follow the last one. -/
def command (line : List Char) : Option (List (List Char)) :=
  match words (line ++ [' ', ')']) with
  | some (ws, []) => some ws
  | _ => none

/-- A name, and its arguments between double quotes. -/
def renderCommand (name : List Char) (vs : List (List Char)) : List Char :=
  name ++ ' ' :: [' '].intercalate (vs.map dquoted)

/-- What a word outside of quotes is made of. -/
def isBareChar (c : Char) : Bool :=
  c ≠ squote && c ≠ dquote && c ≠ backslash && !endsWord c && !isSpecial c

theorem run_dquoted {v : List Char} (hv : ∀ c ∈ v, isDquotedChar c) :
    run .double (v ++ [dquote]) = some (.plain, v) := by
  induction v with
  | nil => decide
  | cons c v ih =>
    rw [List.forall_mem_cons] at hv
    obtain ⟨hquote, hescape⟩ : c ≠ dquote ∧ isEscapable c = false := by
      simpa [isDquotedChar] using hv.1
    obtain ⟨hdollar, hback, hslash⟩ : c ≠ '$' ∧ c ≠ Char.ofNat 96 ∧ c ≠ backslash := by
      simp only [isEscapable, Bool.or_eq_false_iff, decide_eq_false_iff_not] at hescape
      exact ⟨hescape.1.1.1, hescape.1.1.2, hescape.2⟩
    have hfeed : feed .double c = some (.double, [c]) := by
      simp [feed, hquote, hslash, hdollar, hback]
    simp [run, hfeed, ih hv.2]

theorem run_bare {s : List Char} (hs : ∀ c ∈ s, isBareChar c) : run .plain s = some (.plain, s) := by
  induction s with
  | nil => rfl
  | cons c s ih =>
    rw [List.forall_mem_cons] at hs
    have hfeed : feed .plain c = some (.plain, [c]) := by
      have hc := hs.1
      simp only [isBareChar, Bool.and_eq_true, decide_eq_true_eq, Bool.not_eq_true'] at hc
      simp [feed, hc]
    simp [run, hfeed, ih hs.2]

/-- A word between double quotes is read as it stands. -/
theorem scan_dquoted {v rest : List Char} (hv : ∀ c ∈ v, isDquotedChar c)
    (hrest : ∀ c ∈ rest.head?, endsWord c) : scan .plain (dquoted v ++ rest) = some (v, rest) := by
  have hopen : feed .plain dquote = some (.double, []) := by decide
  refine scan_of_run ?_ hrest
  simp [dquoted, run, hopen, run_dquoted hv]

/-- A word that is scanned is the next one. -/
theorem words_of_scan {s w rest : List Char} (hne : s ≠ []) (hstart : ∀ c ∈ s.head?, ¬ endsWord c)
    (h : scan .plain s = some (w, rest)) : words s = (words rest).map fun r => (w :: r.1, r.2) := by
  obtain ⟨c, cs, rfl⟩ := List.exists_cons_of_ne_nil hne
  have hclose : ¬ endsWord c := hstart c rfl
  have hblank : ¬ isBlank c := fun hc => hclose (by simp [endsWord, hc])
  rw [words, if_neg hblank, dif_neg hclose]
  split
  · next hnone => exact absurd (hnone.symm.trans h) (by simp)
  · next w' rest' hsome =>
    obtain ⟨rfl, rfl⟩ := Prod.mk.inj (Option.some.inj (hsome.symm.trans h))
    rfl

theorem words_dquoted {vs : List (List Char)} (hvs : ∀ v ∈ vs, ∀ c ∈ v, isDquotedChar c) :
    words (vs.flatMap (fun v => ' ' :: dquoted v) ++ [' ', ')']) = some (vs, []) := by
  induction vs with
  | nil => exact words_close []
  | cons v vs ih =>
    rw [List.forall_mem_cons] at hvs
    have hends : ∀ c ∈ (vs.flatMap (fun v => ' ' :: dquoted v) ++ [' ', ')']).head?,
        endsWord c := by
      cases vs <;> simp [endsWord, isBlank]
    have hscan := scan_dquoted hvs.1 hends
    rw [List.flatMap_cons, List.append_assoc, List.cons_append, words_blank (by decide),
      words_of_scan (by simp [dquoted]) (by simp [dquoted, endsWord, isBlank, dquote]) hscan,
      ih hvs.2]
    rfl

theorem blank_intercalate (vs : List (List Char)) (hvs : vs ≠ []) :
    ' ' :: [' '].intercalate (vs.map dquoted) = vs.flatMap fun v => ' ' :: dquoted v := by
  induction vs with
  | nil => exact absurd rfl hvs
  | cons v vs ih =>
    cases vs with
    | nil => simp
    | cons v' vs => simpa [List.intercalate] using ih (by simp)

/-- A command is read as it was written. -/
theorem command_render {name : List Char} {vs : List (List Char)} (hname : name ≠ [])
    (hbare : ∀ c ∈ name, isBareChar c) (hvs : ∀ v ∈ vs, ∀ c ∈ v, isDquotedChar c) :
    command (renderCommand name vs) = some (name :: vs) := by
  have hrest : words (' ' :: [' '].intercalate (vs.map dquoted) ++ [' ', ')']) = some (vs, []) := by
    cases vs with
    | nil => simpa using words_blank (c := ' ') rfl [' ', ')'] ▸ words_close []
    | cons v vs => rw [blank_intercalate _ (by simp), words_dquoted hvs]
  have hstart : ∀ c ∈ (name ++ ' ' :: [' '].intercalate (vs.map dquoted) ++ [' ', ')']).head?,
      ¬ endsWord c := by
    obtain ⟨c, cs, rfl⟩ := List.exists_cons_of_ne_nil hname
    have hc := hbare c (by simp)
    simp only [isBareChar, Bool.and_eq_true, Bool.not_eq_true'] at hc
    simpa using hc.1.2
  have hends : ∀ c ∈ (' ' :: [' '].intercalate (vs.map dquoted) ++ [' ', ')']).head?,
      endsWord c := by
    simp [endsWord, isBlank]
  have hscan := scan_of_run (run_bare hbare) hends
  rw [← List.append_assoc] at hscan
  rw [command, renderCommand, words_of_scan (by simp) hstart hscan, hrest]
  rfl

example : command "f \"a b\" \"\"".toList = some ["f".toList, "a b".toList, []] := by
  decide +kernel

end Bash
