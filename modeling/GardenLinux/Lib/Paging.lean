import Mathlib.Data.List.Perm.Basic
import Mathlib.Data.List.TakeDrop

/-!
# Paged listings

A service lists a collection page by page: every page but the last is truncated and carries
the token with which the next one is asked for.  A loop asks for one page after the other,
hands its contents to a body, and ends at a page without entries.

What is proved here:

* `pageLoop_list` — the loop is the body over the pages before the first empty one, whatever
  the pages are, and as many rounds as there are pages suffice;
* `visitsOnce_iff` — exactly when every entry is read once.
-/

namespace Paging

variable {α β γ ε : Type}

/-! ## Runs of a generator -/

inductive Ending (ε : Type)
  | returned
  | raised (e : ε)
  | unfinished
  deriving DecidableEq, Repr

/-- What a generator yields and how it ends. -/
structure Run (β ε : Type) where
  values : List β
  ending : Ending ε
  deriving DecidableEq, Repr

namespace Run

def done : Run β ε := ⟨[], .returned⟩

/-- `yield from` the first and, when it returns, what follows. -/
def andThen (first rest : Run β ε) : Run β ε :=
  match first.ending with
  | .returned => ⟨first.values ++ rest.values, rest.ending⟩
  | _ => first

/-- `yield from map(read, xs)`. -/
def read (read : α → Except ε β) : List α → Run β ε
  | [] => done
  | x :: xs =>
    match read x with
    | .ok y => andThen ⟨[y], .returned⟩ (Run.read read xs)
    | .error e => ⟨[], .raised e⟩

/-- `for x in run: yield from f(x)`. -/
def flatMap (f : β → List γ) (run : Run β ε) : Run γ ε := ⟨run.values.flatMap f, run.ending⟩

/-- What comes after a run that is collected first. -/
def collect (run : Run β ε) (f : List β → Run γ ε) : Run γ ε :=
  match run.ending with
  | .returned => f run.values
  | .raised e => ⟨[], .raised e⟩
  | .unfinished => ⟨[], .unfinished⟩

@[simp] theorem done_andThen (run : Run β ε) : done.andThen run = run := rfl

@[simp] theorem andThen_done (run : Run β ε) : run.andThen done = run := by
  obtain ⟨values, ending⟩ := run
  cases ending <;> simp [andThen, done]

theorem andThen_assoc (r s t : Run β ε) : (r.andThen s).andThen t = r.andThen (s.andThen t) := by
  obtain ⟨rv, re⟩ := r
  obtain ⟨sv, se⟩ := s
  cases re <;> cases se <;> simp [andThen]

/-- The body over one page after the other. -/
def each (body : List α → Run β ε) : List (List α) → Run β ε
  | [] => done
  | page :: pages => (body page).andThen (each body pages)

theorem read_append (f : α → Except ε β) (xs ys : List α) :
    read f (xs ++ ys) = (read f xs).andThen (read f ys) := by
  induction xs with
  | nil => rfl
  | cons x xs ih =>
    cases hx : f x with
    | error e => simp [read, hx, andThen]
    | ok y => simp only [List.cons_append, read, hx, ih, andThen_assoc]

theorem each_read (f : α → Except ε β) (pages : List (List α)) :
    each (read f) pages = read f pages.flatten := by
  induction pages with
  | nil => rfl
  | cons page pages ih => rw [each, ih, List.flatten_cons, read_append]

theorem each_read_filter (f : α → Except ε β) (p : α → Bool) (pages : List (List α)) :
    each (fun page => read f (page.filter p)) pages = read f (pages.flatten.filter p) := by
  induction pages with
  | nil => rfl
  | cons page pages ih => rw [each, ih, List.flatten_cons, List.filter_append, read_append]

theorem read_eq_returned_iff {f : α → Except ε β} {xs : List α} {ys : List β} :
    read f xs = ⟨ys, .returned⟩ ↔ xs.map f = ys.map .ok := by
  induction xs generalizing ys with
  | nil =>
    cases ys <;> simp [read, done]
  | cons x xs ih =>
    cases hx : f x with
    | error e => cases ys <;> simp [read, hx]
    | ok y =>
      simp only [read, hx, andThen, List.map_cons]
      cases ys with
      | nil => simp
      | cons z zs =>
        rw [List.map_cons, List.cons.injEq, ← ih]
        generalize read f xs = run
        obtain ⟨values, ending⟩ := run
        simp [and_assoc]

theorem andThen_eq_returned_iff {r s : Run β ε} {zs : List β} :
    r.andThen s = ⟨zs, .returned⟩ ↔
      ∃ xs ys, r = ⟨xs, .returned⟩ ∧ s = ⟨ys, .returned⟩ ∧ xs ++ ys = zs := by
  obtain ⟨rv, re⟩ := r
  obtain ⟨sv, se⟩ := s
  cases re <;> simp [andThen, and_comm]

theorem flatMap_eq_returned_iff {f : β → List γ} {r : Run β ε} {zs : List γ} :
    r.flatMap f = ⟨zs, .returned⟩ ↔ ∃ xs, r = ⟨xs, .returned⟩ ∧ xs.flatMap f = zs := by
  obtain ⟨rv, re⟩ := r
  simp [flatMap, and_comm]

theorem collect_eq_returned_iff {f : List β → Run γ ε} {r : Run β ε} {zs : List γ} :
    r.collect f = ⟨zs, .returned⟩ ↔ ∃ xs, r = ⟨xs, .returned⟩ ∧ f xs = ⟨zs, .returned⟩ := by
  obtain ⟨rv, re⟩ := r
  cases re <;> simp [collect]

end Run

/-! ## Listings -/

/-- The response to one request. -/
structure Response (α : Type) where
  keyCount : ℕ
  isTruncated : Bool
  nextContinuationToken : Option String
  contents : List α

/-- The pages of a listing and the tokens of those that follow another one. -/
structure Listing (α : Type) where
  pages : List (List α)
  pages_ne_nil : pages ≠ []
  token : ℕ → String
  token_injective : Function.Injective token
  token_ne_empty : ∀ i, token i ≠ ""

namespace Listing

variable (listing : Listing α)

def response (i : ℕ) : Option (Response α) :=
  listing.pages[i]?.map fun page =>
    { keyCount := page.length
      isTruncated := i + 1 < listing.pages.length
      nextContinuationToken :=
        if i + 1 < listing.pages.length then some (listing.token (i + 1)) else none
      contents := page }

/-- The page after which a token was issued; an unknown token is refused. -/
def list : Option String → Option (Response α)
  | none => listing.response 0
  | some token =>
    ((List.range listing.pages.length).find? fun i => listing.token i = token).bind
      listing.response

/-- The entries of the pages before the first empty one. -/
def met : List α := (listing.pages.takeWhile (· ≠ [])).flatten

/-- The entries of the pages after it. -/
def skipped : List α := (listing.pages.dropWhile (· ≠ [])).flatten

theorem met_append_skipped : listing.met ++ listing.skipped = listing.pages.flatten := by
  rw [met, skipped, ← List.flatten_append, List.takeWhile_append_dropWhile]

theorem list_token {i : ℕ} (h : i < listing.pages.length) :
    listing.list (some (listing.token i)) = listing.response i := by
  have hfind : (List.range listing.pages.length).find?
      (fun j => listing.token j = listing.token i) = some i := by
    rw [List.find?_range_eq_some]
    refine ⟨by simp, List.mem_range.2 h, fun j hj => ?_⟩
    simpa using fun heq => (Nat.ne_of_lt hj) (listing.token_injective heq)
  rw [list, hfind, Option.bind_some]

end Listing

/-! ## The loop -/

/-- An empty token counts as none. -/
def givenToken (token : Option String) : Option String := token.filter (· ≠ "")

/-- The loop over the pages: it ends at a page without entries and after the last one. -/
def pageLoop (list : Option String → Option (Response α)) (refused : ε)
    (last : Response α → Bool) (body : List α → Run β ε) : ℕ → Option String → Run β ε
  | 0, _ => ⟨[], .unfinished⟩
  | rounds + 1, token =>
    match list (givenToken token) with
    | none => ⟨[], .raised refused⟩
    | some res =>
      if res.keyCount = 0 then .done
      else (body res.contents).andThen
        (if last res then .done
          else pageLoop list refused last body rounds res.nextContinuationToken)

/-- The condition tells the last page of every listing. -/
def TellsLast (last : Response α → Bool) : Prop :=
  ∀ (listing : Listing α) (i : ℕ) (res : Response α), listing.response i = some res →
    (last res ↔ ¬ i + 1 < listing.pages.length)

def notTruncated (res : Response α) : Bool := ¬ res.isTruncated

def noToken (res : Response α) : Bool := (givenToken res.nextContinuationToken).isNone

theorem tellsLast_notTruncated : TellsLast (notTruncated (α := α)) := by
  intro listing i res h
  obtain ⟨page, -, rfl⟩ := Option.map_eq_some_iff.1 h
  simp [notTruncated]

theorem tellsLast_noToken : TellsLast (noToken (α := α)) := by
  intro listing i res h
  obtain ⟨page, -, rfl⟩ := Option.map_eq_some_iff.1 h
  by_cases hi : i + 1 < listing.pages.length
  · simp [noToken, givenToken, hi, listing.token_ne_empty]
  · simp [noToken, givenToken, hi]

variable {listing : Listing α} {refused : ε} {last : Response α → Bool} {body : List α → Run β ε}

/-- One round, and with it all those that follow. -/
theorem pageLoop_token (hlast : TellsLast last) {i rounds : ℕ} {token : Option String}
    (htoken : listing.list (givenToken token) = listing.response i)
    (hi : i < listing.pages.length) (hrounds : listing.pages.length ≤ i + rounds) :
    pageLoop listing.list refused last body rounds token =
      Run.each body ((listing.pages.drop i).takeWhile (· ≠ [])) := by
  induction rounds generalizing i token with
  | zero => omega
  | succ rounds ih =>
    have hres : listing.response i = some ⟨listing.pages[i].length, i + 1 < listing.pages.length,
        if i + 1 < listing.pages.length then some (listing.token (i + 1)) else none,
        listing.pages[i]⟩ := by simp [Listing.response, hi]
    have htells := hlast listing i _ hres
    rw [pageLoop, htoken, hres, List.drop_eq_getElem_cons hi, List.takeWhile_cons]
    by_cases hpage : listing.pages[i] = []
    · simp [hpage, Run.each]
    · simp only [List.length_eq_zero_iff, hpage, if_false, ne_eq, not_false_eq_true,
        decide_true, if_true, Run.each]
      congr 1
      by_cases hnext : i + 1 < listing.pages.length
      · rw [if_neg (by simpa using mt htells.1 (not_not.2 hnext)), if_pos hnext]
        refine ih ?_ hnext (by omega)
        rw [givenToken, Option.filter_some, if_pos (by simp [listing.token_ne_empty])]
        exact listing.list_token hnext
      · rw [if_pos (htells.2 hnext), List.drop_eq_nil_of_le (by omega)]
        rfl

theorem pageLoop_list (hlast : TellsLast last) {rounds : ℕ}
    (hrounds : listing.pages.length ≤ rounds) :
    pageLoop listing.list refused last body rounds none =
      Run.each body (listing.pages.takeWhile (· ≠ [])) := by
  have hpages : 0 < listing.pages.length := List.length_pos_of_ne_nil listing.pages_ne_nil
  have hfirst : listing.list (givenToken none) = listing.response 0 := rfl
  rw [pageLoop_token hlast hfirst hpages (by omega), List.drop_zero]

/-! ## Visiting once -/

/-- The run ends, given the rounds that it needs, and yields what is read of every entry
once. -/
def VisitsOnce (run : ℕ → Run β ε) (read : α → Except ε β) (entries : List α) : Prop :=
  ∃ (needed : ℕ) (ys zs : List β), (∀ rounds ≥ needed, run rounds = ⟨ys, .returned⟩) ∧
    entries.map read = zs.map .ok ∧ ys.Perm zs

theorem exists_map_ok_iff {f : α → Except ε β} {xs : List α} :
    (∃ ys : List β, xs.map f = ys.map .ok) ↔ ∀ x ∈ xs, ∃ y, f x = .ok y := by
  induction xs with
  | nil => exact ⟨fun _ x hx => absurd hx List.not_mem_nil, fun _ => ⟨[], rfl⟩⟩
  | cons x xs ih =>
    rw [List.forall_mem_cons, ← ih]
    constructor
    · rintro ⟨ys, hys⟩
      obtain ⟨y, zs, rfl, hy, hzs⟩ := List.map_eq_cons_iff.1 hys.symm
      exact ⟨⟨y, hy.symm⟩, zs, hzs.symm⟩
    · rintro ⟨⟨y, hy⟩, zs, hzs⟩
      exact ⟨y :: zs, by rw [List.map_cons, List.map_cons, hy, hzs]⟩

/-- What is read is read under some entry. -/
theorem mem_of_map_ok {f : α → Except ε β} {xs : List α} {ys : List β}
    (h : xs.map f = ys.map .ok) (y : β) : y ∈ ys ↔ ∃ x ∈ xs, f x = .ok y := by
  rw [← List.mem_map, h, List.mem_map]
  exact ⟨fun hy => ⟨y, hy, rfl⟩, fun ⟨z, hz, heq⟩ => Except.ok.inj heq ▸ hz⟩

/-- A run that reads some of the entries reads all of them once iff it leaves none out and
there is something to read under each. -/
theorem visitsOnce_iff {run : ℕ → Run β ε} {read : α → Except ε β} {entries met skipped : List α}
    {needed : ℕ} (hrun : ∀ rounds ≥ needed, run rounds = Run.read read met)
    (hperm : (met ++ skipped).Perm entries) :
    VisitsOnce run read entries ↔ (∀ x ∈ entries, ∃ y, read x = .ok y) ∧ skipped = [] := by
  constructor
  · rintro ⟨needed', ys, zs, hys, hzs, hyz⟩
    refine ⟨exists_map_ok_iff.1 ⟨zs, hzs⟩, ?_⟩
    have hread : Run.read read met = ⟨ys, .returned⟩ := by
      rw [← hrun (max needed needed') (Nat.le_max_left needed needed'),
        hys _ (Nat.le_max_right needed needed')]
    have hmet : met.length = ys.length := by
      simpa using congrArg List.length (Run.read_eq_returned_iff.1 hread)
    have hentries : entries.length = zs.length := by simpa using congrArg List.length hzs
    have hlength := hperm.length_eq
    rw [List.length_append, hmet, hyz.length_eq, hentries] at hlength
    exact List.length_eq_zero_iff.1 (by omega)
  · rintro ⟨hread, rfl⟩
    rw [List.append_nil] at hperm
    obtain ⟨zs, hzs⟩ := exists_map_ok_iff.2 hread
    obtain ⟨ys, hys⟩ := exists_map_ok_iff.2 fun x hx => hread x (hperm.mem_iff.1 hx)
    refine ⟨needed, ys, zs, fun rounds hrounds => ?_, hzs, ?_⟩
    · rw [hrun rounds hrounds, Run.read_eq_returned_iff.2 hys]
    · have hmap := hperm.map read
      rw [hys, hzs] at hmap
      exact (List.map_perm_map_iff fun _ _ h => Except.ok.inj h).1 hmap

end Paging
