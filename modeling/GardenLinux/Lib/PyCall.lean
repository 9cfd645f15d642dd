import GardenLinux.Lib.Bash

/-!
# Calls in the Python language

A call whose arguments are keywords with texts in single quotes, such as `f(a='x',b='y')`.  A
call that has something else in it, such as an escape sequence in a text, is not read.

What is proved here:

* `foldlM_renderArgs` — the reader goes from one argument to the next;
* `read_render` — a call is read as it was written, if its names are names, no keyword stands
  twice and the texts can stand between quotes.
-/

namespace PyCall

open Bash (squote backslash)

/-- The words that are no names. -/
def reserved : List String :=
  ["False", "None", "True", "and", "as", "assert", "async", "await", "break", "class", "continue",
    "def", "del", "elif", "else", "except", "finally", "for", "from", "global", "if", "import", "in",
    "is", "lambda", "nonlocal", "not", "or", "pass", "raise", "return", "try", "while", "with",
    "yield"]

def isNameChar (c : Char) : Bool := c.isAlphanum || c = '_'

def IsName (s : List Char) : Prop :=
  s ≠ [] ∧ (∀ c ∈ s, isNameChar c) ∧ (∀ c ∈ s.head?, ¬ c.isDigit) ∧ String.ofList s ∉ reserved

instance : DecidablePred IsName := fun s =>
  decidable_of_iff (s ≠ [] ∧ s.all isNameChar ∧ (s.head?.all fun c => !c.isDigit) ∧
    String.ofList s ∉ reserved) (by simp [IsName, Option.all_eq_true])

/-- What stands between quotes as it is. -/
def isTextChar (c : Char) : Bool := c ≠ squote && c ≠ backslash && c ≠ '\n'

abbrev Args := List (List Char × List Char)

/-- Where the reader of arguments is: in a keyword (the first one, or one behind a comma),
behind its equals sign, in its text, behind the text, and behind the closing bracket. -/
inductive Place
  | first (key : List Char)
  | key (key : List Char)
  | equals (key : List Char)
  | text (key value : List Char)
  | behind
  | closed
  deriving DecidableEq, Repr

structure Reader where
  place : Place
  args : Args
  deriving DecidableEq, Repr

/-- A keyword ends at its equals sign, and stands only once in a call. -/
def readKey (place : List Char → Place) (key : List Char) (args : Args) (c : Char) :
    Option Reader :=
  if isNameChar c then some ⟨place (key ++ [c]), args⟩
  else if c = '=' ∧ IsName key ∧ !(args.map Prod.fst).contains key then some ⟨.equals key, args⟩
  else if c = ')' ∧ key = [] then some ⟨.closed, args⟩
  else none

def Reader.step (reader : Reader) (c : Char) : Option Reader :=
  match reader.place with
  | .first key => readKey .first key reader.args c
  | .key key => readKey .key key reader.args c
  | .equals key => if c = squote then some ⟨.text key [], reader.args⟩ else none
  | .text key value =>
    if c = squote then some ⟨.behind, reader.args ++ [(key, value)]⟩
    else if isTextChar c then some ⟨.text key (value ++ [c]), reader.args⟩
    else none
  | .behind =>
    if c = ',' then some ⟨.key [], reader.args⟩
    else if c = ')' then some ⟨.closed, reader.args⟩
    else none
  | .closed => none

/-- The arguments of a call, from behind its opening bracket to the end of the line. -/
def readArgs (s : List Char) : Option Args :=
  match s.foldlM Reader.step ⟨.first [], []⟩ with
  | some ⟨.closed, args⟩ => some args
  | _ => none

/-- A line with one call. -/
def read (s : List Char) : Option (List Char × Args) :=
  match s.span isNameChar with
  | (name, '(' :: s) => if IsName name then (readArgs s).map (name, ·) else none
  | _ => none

/-- `key='value'`. -/
def renderArg (arg : List Char × List Char) : List Char :=
  arg.1 ++ '=' :: squote :: (arg.2 ++ [squote])

/-- A call with its arguments separated by commas. -/
def render (name : List Char) (args : Args) : List Char :=
  name ++ '(' :: ([','].intercalate (args.map renderArg) ++ [')'])

/-- A call that can be written down. -/
structure WellFormed (name : List Char) (args : Args) : Prop where
  name : IsName name
  keys : ∀ arg ∈ args, IsName arg.1
  nodup : (args.map Prod.fst).Nodup
  texts : ∀ arg ∈ args, ∀ c ∈ arg.2, isTextChar c

/-! ## Reading one argument -/

section Fold

variable {args : Args}

theorem foldlM_key {place : List Char → Place}
    (hplace : ∀ key args c, Reader.step ⟨place key, args⟩ c = readKey place key args c)
    {s : List Char} (hs : ∀ c ∈ s, isNameChar c) (key : List Char) :
    s.foldlM Reader.step ⟨place key, args⟩ = some ⟨place (key ++ s), args⟩ := by
  induction s generalizing key with
  | nil => simp
  | cons c s ih =>
    rw [List.forall_mem_cons] at hs
    simp [hplace, readKey, hs.1, ih hs.2]

theorem foldlM_text {s : List Char} (hs : ∀ c ∈ s, isTextChar c) (key value : List Char) :
    s.foldlM Reader.step ⟨.text key value, args⟩ = some ⟨.text key (value ++ s), args⟩ := by
  induction s generalizing value with
  | nil => simp
  | cons c s ih =>
    rw [List.forall_mem_cons] at hs
    have hquote : c ≠ squote := by
      rintro rfl
      exact absurd hs.1 (by decide)
    simp [Reader.step, hquote, hs.1, ih hs.2]

/-- An argument is read as a whole. -/
theorem foldlM_renderArg {place : List Char → Place}
    (hplace : ∀ key args c, Reader.step ⟨place key, args⟩ c = readKey place key args c)
    {arg : List Char × List Char} (hkey : IsName arg.1) (hnew : arg.1 ∉ args.map Prod.fst)
    (htext : ∀ c ∈ arg.2, isTextChar c) :
    (renderArg arg).foldlM Reader.step ⟨place [], args⟩ = some ⟨.behind, args ++ [arg]⟩ := by
  have hequals : Reader.step ⟨place arg.1, args⟩ '=' = some ⟨.equals arg.1, args⟩ := by
    rw [hplace, readKey, if_neg (by decide), if_pos ⟨rfl, hkey, by simpa using hnew⟩]
  have hopen : Reader.step ⟨.equals arg.1, args⟩ squote = some ⟨.text arg.1 [], args⟩ := by
    simp [Reader.step]
  have hclose : Reader.step ⟨.text arg.1 arg.2, args⟩ squote = some ⟨.behind, args ++ [arg]⟩ := by
    simp [Reader.step]
  simp [renderArg, foldlM_key hplace hkey.2.1, hequals, hopen, foldlM_text htext, hclose]

/-- The arguments behind the first one. -/
theorem foldlM_renderArgs {more : Args} (hkeys : ∀ arg ∈ more, IsName arg.1)
    (hnodup : ((args ++ more).map Prod.fst).Nodup)
    (htexts : ∀ arg ∈ more, ∀ c ∈ arg.2, isTextChar c) :
    (more.flatMap fun arg => ',' :: renderArg arg).foldlM Reader.step ⟨.behind, args⟩ =
      some ⟨.behind, args ++ more⟩ := by
  induction more generalizing args with
  | nil => simp
  | cons arg more ih =>
    rw [List.forall_mem_cons] at hkeys htexts
    have hnew : arg.1 ∉ args.map Prod.fst := by
      rw [List.map_append, List.nodup_append] at hnodup
      exact fun hmem => hnodup.2.2 _ hmem _ (by simp) rfl
    have hcomma : Reader.step ⟨.behind, args⟩ ',' = some ⟨.key [], args⟩ := rfl
    have harg : (renderArg arg).foldlM Reader.step ⟨.key [], args⟩ =
        some ⟨.behind, args ++ [arg]⟩ :=
      foldlM_renderArg (fun _ _ _ => rfl) hkeys.1 hnew htexts.1
    rw [List.append_cons] at hnodup
    simp [hcomma, harg, ih hkeys.2 hnodup htexts.2]

end Fold

theorem intercalate_cons_eq {α : Type*} (sep part : List α) (parts : List (List α)) :
    sep.intercalate (part :: parts) = part ++ parts.flatMap (sep ++ ·) := by
  induction parts generalizing part with
  | nil => simp
  | cons part' parts ih => simpa [List.intercalate] using ih part'

theorem readArgs_render {args : Args} (hkeys : ∀ arg ∈ args, IsName arg.1)
    (hnodup : (args.map Prod.fst).Nodup) (htexts : ∀ arg ∈ args, ∀ c ∈ arg.2, isTextChar c) :
    readArgs ([','].intercalate (args.map renderArg) ++ [')']) = some args := by
  have hclosed (args : Args) : Reader.step ⟨.behind, args⟩ ')' = some ⟨.closed, args⟩ := rfl
  cases args with
  | nil => rfl
  | cons arg args =>
    rw [List.forall_mem_cons] at hkeys htexts
    have hfirst : (renderArg arg).foldlM Reader.step ⟨.first [], []⟩ = some ⟨.behind, [arg]⟩ :=
      foldlM_renderArg (fun _ _ _ => rfl) hkeys.1 (by simp) htexts.1
    have hrest : (args.flatMap fun arg => ',' :: renderArg arg).foldlM Reader.step
        ⟨.behind, [arg]⟩ = some ⟨.behind, arg :: args⟩ :=
      foldlM_renderArgs hkeys.2 (by simpa using hnodup) htexts.2
    rw [readArgs, List.map_cons, intercalate_cons_eq, List.flatMap_map]
    simp [hfirst, hrest, hclosed]

/-- A call is read as it was written. -/
theorem read_render {name : List Char} {args : Args} (h : WellFormed name args) :
    read (render name args) = some (name, args) := by
  have hspan : (render name args).span isNameChar =
      (name, '(' :: ([','].intercalate (args.map renderArg) ++ [')'])) := by
    rw [List.span_eq_takeWhile_dropWhile, render, List.takeWhile_append_of_pos h.name.2.1,
      List.dropWhile_append_of_pos h.name.2.1]
    simp [isNameChar]
  rw [read, hspan]
  simp [h.name, readArgs_render h.keys h.nodup h.texts]

example : read "f(a_1='x y',b='')".toList =
    some ("f".toList, [("a_1".toList, "x y".toList), ("b".toList, [])]) := by decide

example : read "f(a='x',a='y')".toList = none := by decide

end PyCall
