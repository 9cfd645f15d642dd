import GardenLinux.Lib.PyCall

/-!
# Objects of texts in JSON

An object whose values are texts, such as `"a": "x", "b": "y"` between braces, as a dictionary.  A
text with an escape sequence is not read.

What is proved here:

* `read_render` — an object is read as it was written, if its keys are different and its texts
  can stand between quotes.
-/

namespace JsonObject

open Bash (dquote backslash)

abbrev Entries := List (List Char × List Char)

/-- What stands between quotes as it is. -/
def isTextChar (c : Char) : Bool := c ≠ dquote && c ≠ backslash && 32 ≤ c.toNat

def isSpace (c : Char) : Bool := c = ' ' || c = '\t' || c = '\n' || c = '\r'

/-- An entry of the dictionary is replaced or added. -/
def setEntry (entries : Entries) (entry : List Char × List Char) : Entries :=
  if (entries.map Prod.fst).contains entry.1 then
    entries.map fun other => if other.1 = entry.1 then entry else other
  else entries ++ [entry]

/-- Where the reader is: in front of the object, behind its opening brace, behind a comma, in a
key, behind the key, behind its colon, in a text, behind the text, and behind the closing brace. -/
inductive Place
  | start
  | opened
  | comma
  | key (key : List Char)
  | colon (key : List Char)
  | value (key : List Char)
  | text (key value : List Char)
  | behind
  | closed
  deriving DecidableEq, Repr

structure Reader where
  place : Place
  entries : Entries
  deriving DecidableEq, Repr

def Reader.step (reader : Reader) (c : Char) : Option Reader :=
  match reader.place with
  | .key key =>
    if c = dquote then some ⟨.colon key, reader.entries⟩
    else if isTextChar c then some ⟨.key (key ++ [c]), reader.entries⟩
    else none
  | .text key value =>
    if c = dquote then some ⟨.behind, setEntry reader.entries (key, value)⟩
    else if isTextChar c then some ⟨.text key (value ++ [c]), reader.entries⟩
    else none
  | place =>
    if isSpace c then some reader
    else match place with
      | .start => if c.toNat = 123 then some ⟨.opened, reader.entries⟩ else none
      | .opened =>
        if c = dquote then some ⟨.key [], reader.entries⟩
        else if c.toNat = 125 then some ⟨.closed, reader.entries⟩
        else none
      | .comma => if c = dquote then some ⟨.key [], reader.entries⟩ else none
      | .colon key => if c = ':' then some ⟨.value key, reader.entries⟩ else none
      | .value key => if c = dquote then some ⟨.text key [], reader.entries⟩ else none
      | .behind =>
        if c = ',' then some ⟨.comma, reader.entries⟩
        else if c.toNat = 125 then some ⟨.closed, reader.entries⟩
        else none
      | _ => none

def read (s : List Char) : Option Entries :=
  match s.foldlM Reader.step ⟨.start, []⟩ with
  | some ⟨.closed, entries⟩ => some entries
  | _ => none

def quoted (s : List Char) : List Char := dquote :: (s ++ [dquote])

def renderEntry (entry : List Char × List Char) : List Char :=
  quoted entry.1 ++ ':' :: ' ' :: quoted entry.2

/-- An object with its entries separated by commas. -/
def render (entries : Entries) : List Char :=
  Char.ofNat 123 :: ([',', ' '].intercalate (entries.map renderEntry) ++ [Char.ofNat 125])

/-! ## Reading one entry -/

section Fold

variable {entries : Entries}

theorem foldlM_key {s : List Char} (hs : ∀ c ∈ s, isTextChar c) (key : List Char) :
    s.foldlM Reader.step ⟨.key key, entries⟩ = some ⟨.key (key ++ s), entries⟩ := by
  induction s generalizing key with
  | nil => simp
  | cons c s ih =>
    rw [List.forall_mem_cons] at hs
    have hquote : c ≠ dquote := by
      rintro rfl
      exact absurd hs.1 (by decide)
    simp [Reader.step, hquote, hs.1, ih hs.2]

theorem foldlM_text {s : List Char} (hs : ∀ c ∈ s, isTextChar c) (key value : List Char) :
    s.foldlM Reader.step ⟨.text key value, entries⟩ = some ⟨.text key (value ++ s), entries⟩ := by
  induction s generalizing value with
  | nil => simp
  | cons c s ih =>
    rw [List.forall_mem_cons] at hs
    have hquote : c ≠ dquote := by
      rintro rfl
      exact absurd hs.1 (by decide)
    simp [Reader.step, hquote, hs.1, ih hs.2]

/-- An entry is read as a whole. -/
theorem foldlM_renderEntry {place : Place}
    (hplace : Reader.step ⟨place, entries⟩ dquote = some ⟨.key [], entries⟩)
    {entry : List Char × List Char} (hnew : entry.1 ∉ entries.map Prod.fst)
    (hkey : ∀ c ∈ entry.1, isTextChar c) (htext : ∀ c ∈ entry.2, isTextChar c) :
    (renderEntry entry).foldlM Reader.step ⟨place, entries⟩ =
      some ⟨.behind, entries ++ [entry]⟩ := by
  have hcolon : Reader.step ⟨.key entry.1, entries⟩ dquote = some ⟨.colon entry.1, entries⟩ := by
    simp [Reader.step]
  have hvalue : Reader.step ⟨.colon entry.1, entries⟩ ':' = some ⟨.value entry.1, entries⟩ := by
    simp [Reader.step, isSpace]
  have hspace : Reader.step ⟨.value entry.1, entries⟩ ' ' = some ⟨.value entry.1, entries⟩ := by
    simp [Reader.step, isSpace]
  have hopen : Reader.step ⟨.value entry.1, entries⟩ dquote = some ⟨.text entry.1 [], entries⟩ := by
    simp [Reader.step, show isSpace dquote = false from rfl]
  have hclose : Reader.step ⟨.text entry.1 entry.2, entries⟩ dquote =
      some ⟨.behind, entries ++ [entry]⟩ := by
    simp [Reader.step, setEntry, hnew]
  simp [renderEntry, quoted, hplace, foldlM_key hkey, hcolon, hvalue, hspace, hopen,
    foldlM_text htext, hclose]

/-- The entries behind the first one. -/
theorem foldlM_renderEntries {more : Entries} (hnodup : ((entries ++ more).map Prod.fst).Nodup)
    (hkeys : ∀ entry ∈ more, ∀ c ∈ entry.1, isTextChar c)
    (htexts : ∀ entry ∈ more, ∀ c ∈ entry.2, isTextChar c) :
    (more.flatMap fun entry => ',' :: ' ' :: renderEntry entry).foldlM Reader.step
      ⟨.behind, entries⟩ = some ⟨.behind, entries ++ more⟩ := by
  induction more generalizing entries with
  | nil => simp
  | cons entry more ih =>
    rw [List.forall_mem_cons] at hkeys htexts
    have hnew : entry.1 ∉ entries.map Prod.fst := by
      rw [List.map_append, List.nodup_append] at hnodup
      exact fun hmem => hnodup.2.2 _ hmem _ (by simp) rfl
    have hcomma : Reader.step ⟨.behind, entries⟩ ',' = some ⟨.comma, entries⟩ := rfl
    have hspace : Reader.step ⟨.comma, entries⟩ ' ' = some ⟨.comma, entries⟩ := rfl
    have hquote : Reader.step ⟨.comma, entries⟩ dquote = some ⟨.key [], entries⟩ := rfl
    rw [List.append_cons] at hnodup
    simp [hcomma, hspace, foldlM_renderEntry hquote hnew hkeys.1 htexts.1,
      ih hnodup hkeys.2 htexts.2]

end Fold

/-- An object is read as it was written. -/
theorem read_render {entries : Entries} (hnodup : (entries.map Prod.fst).Nodup)
    (hkeys : ∀ entry ∈ entries, ∀ c ∈ entry.1, isTextChar c)
    (htexts : ∀ entry ∈ entries, ∀ c ∈ entry.2, isTextChar c) :
    read (render entries) = some entries := by
  have hstart : Reader.step ⟨.start, []⟩ (Char.ofNat 123) = some ⟨.opened, []⟩ := rfl
  have hclosed (entries : Entries) :
      Reader.step ⟨.behind, entries⟩ (Char.ofNat 125) = some ⟨.closed, entries⟩ := rfl
  have hquote : Reader.step ⟨.opened, []⟩ dquote = some ⟨.key [], []⟩ := rfl
  cases entries with
  | nil => rfl
  | cons entry entries =>
    rw [List.forall_mem_cons] at hkeys htexts
    have hfirst := foldlM_renderEntry hquote (by simp) hkeys.1 htexts.1
    have hnodup' : (([entry] ++ entries).map Prod.fst).Nodup := by simpa using hnodup
    have hrest := foldlM_renderEntries hnodup' hkeys.2 htexts.2
    rw [read, render, List.map_cons, PyCall.intercalate_cons_eq, List.flatMap_map]
    simp [hstart, hfirst, hrest, hclosed]

end JsonObject
